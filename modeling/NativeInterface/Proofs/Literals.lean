import NativeInterface.C.Name
import NativeInterface.Proofs.TokensInPlace

/-!
# String literals

A backslash belongs to the character behind it, so a text is written in characters that stand alone
or behind a backslash (`Text.glyphs`), and a string literal ends at the first quote that stands
alone, whatever its escapes mean. The literals of generated code are read back with any text behind
them (`C.literal_faithful`). The lexer reads the literals of a source byte by byte, and finds the
end and the characters of each (`Lexed.InPlace.strings_of_file`).
-/

namespace NativeInterface.Text

/-! ## Texts with backslashes -/

/-- A character as it is written: alone, or behind a backslash. -/
inductive Glyph where
  | plain (c : Char)
  | escaped (c : Char)
  deriving DecidableEq, Repr

/-- How a text is written. A backslash at its end is in front of nothing. -/
def glyphs : List Char → List Glyph
  | [] => []
  | ['\\'] => []
  | '\\' :: c :: cs => .escaped c :: glyphs cs
  | c :: cs => .plain c :: glyphs cs

theorem glyphs_escaped (c : Char) (cs : List Char) :
    glyphs ('\\' :: c :: cs) = .escaped c :: glyphs cs := by
  rw [glyphs]

theorem glyphs_plain {c : Char} (hc : c ≠ '\\') (cs : List Char) :
    glyphs (c :: cs) = .plain c :: glyphs cs := by
  rw [glyphs]
  · exact fun h _ => hc h
  · exact fun _ _ h _ => hc h

/-- The text `body` of a literal goes on up to a quote, with `rest` behind it. That quote is the
first that stands alone, and no line feed stands alone before it. -/
structure Delimited (body rest : List Char) : Prop where
  closes : glyphs (body ++ '"' :: rest) = glyphs body ++ .plain '"' :: glyphs rest
  quote : .plain '"' ∉ glyphs body
  feed : .plain '\n' ∉ glyphs body

/-- A line feed that stands alone, or the end of the text, comes before any quote that stands
alone. -/
def Unterminated (gs : List Glyph) : Prop :=
  (∃ front back, gs = front ++ .plain '\n' :: back ∧ .plain '"' ∉ front) ∨ .plain '"' ∉ gs

namespace Delimited
variable {body rest : List Char}

theorem nil : Delimited [] rest := by
  refine ⟨?_, List.not_mem_nil, List.not_mem_nil⟩
  rw [List.nil_append, glyphs_plain (by decide)]
  rfl

theorem escaped (h : Delimited body rest) (c : Char) : Delimited ('\\' :: c :: body) rest := by
  refine ⟨?_, ?_, ?_⟩
  · rw [List.cons_append, List.cons_append, glyphs_escaped, glyphs_escaped, h.closes,
      List.cons_append]
  · rw [glyphs_escaped]
    exact List.not_mem_cons_of_ne_of_not_mem (fun h => by cases h) h.quote
  · rw [glyphs_escaped]
    exact List.not_mem_cons_of_ne_of_not_mem (fun h => by cases h) h.feed

theorem plain (h : Delimited body rest) {c : Char} (hc : c ≠ '\n' ∧ c ≠ '"' ∧ c ≠ '\\') :
    Delimited (c :: body) rest := by
  obtain ⟨hfeed, hquote, hslash⟩ := hc
  refine ⟨?_, ?_, ?_⟩
  · rw [List.cons_append, glyphs_plain hslash, glyphs_plain hslash, h.closes, List.cons_append]
  · rw [glyphs_plain hslash]
    exact List.not_mem_cons_of_ne_of_not_mem (fun h => hquote (Glyph.plain.inj h).symm) h.quote
  · rw [glyphs_plain hslash]
    exact List.not_mem_cons_of_ne_of_not_mem (fun h => hfeed (Glyph.plain.inj h).symm) h.feed

theorem not_unterminated (h : Delimited body rest) :
    ¬Unterminated (glyphs (body ++ '"' :: rest)) := by
  rw [h.closes]
  rintro (⟨front, back, hsplit, hfront⟩ | hnone)
  · -- The line feed and the quote are different characters, so one comes first.
    rcases List.append_eq_append_iff.mp hsplit with ⟨mid, rfl, hmid⟩ | ⟨mid, hbody, hmid⟩
    · cases mid with
      | nil => cases hmid
      | cons g mid =>
        obtain ⟨rfl, -⟩ := List.cons.inj hmid
        exact hfront (List.mem_append_right _ List.mem_cons_self)
    · cases mid with
      | nil => cases hmid
      | cons g mid =>
        obtain ⟨rfl, -⟩ := List.cons.inj hmid
        apply h.feed
        rw [hbody]
        exact List.mem_append_right _ List.mem_cons_self
  · exact hnone (List.mem_append_right _ List.mem_cons_self)

end Delimited

theorem Unterminated.cons {gs : List Glyph} (h : Unterminated gs) {g : Glyph}
    (hg : g ≠ .plain '"') : Unterminated (g :: gs) := by
  rcases h with ⟨front, back, rfl, hfront⟩ | hnone
  · exact .inl ⟨g :: front, back, rfl, List.not_mem_cons_of_ne_of_not_mem hg.symm hfront⟩
  · exact .inr (List.not_mem_cons_of_ne_of_not_mem hg.symm hnone)

end NativeInterface.Text

/-! ## Literals of generated code -/

namespace NativeInterface.C
open Text (Delimited)

theorem literalChar_of_ne {c : Char} (h : c ≠ '\n' ∧ c ≠ '"' ∧ c ≠ '\\') : literalChar c = [c] := by
  rw [literalChar, if_neg h.2.1, if_neg h.2.2, if_neg h.1]

/-- A character is written behind a backslash, or is none that ends a literal. -/
theorem literalChar_cases (c : Char) :
    (∃ d, literalChar c = ['\\', d] ∧ d ≠ '\n') ∨
      literalChar c = [c] ∧ c ≠ '\n' ∧ c ≠ '"' ∧ c ≠ '\\' := by
  unfold literalChar
  grind

theorem toList_literal (s : String) :
    (literal s).toList = '"' :: (s.toList.flatMap literalChar ++ ['"']) := by
  rw [literal, String.toList_ofList, List.cons_append]

theorem delimited_flatMap (cs rest : List Char) : Delimited (cs.flatMap literalChar) rest := by
  induction cs with
  | nil => exact .nil
  | cons c cs ih =>
    rw [List.flatMap_cons]
    rcases literalChar_cases c with ⟨d, hc, -⟩ | ⟨hc, hplain⟩
    · rw [hc]
      exact ih.escaped d
    · rw [hc]
      exact ih.plain hplain

theorem feed_notMem_literal (s : String) : '\n' ∉ (literal s).toList := by
  have hchar (c : Char) : '\n' ∉ literalChar c := by
    rcases literalChar_cases c with ⟨d, hc, hd⟩ | ⟨hc, hfeed, -⟩
    · simpa [hc] using hd.symm
    · simpa [hc] using hfeed.symm
  rw [toList_literal]
  simpa using fun c _ => hchar c

/-- A literal is read back up to its closing quote. -/
theorem readLiteralBody_flatMap (cs rest : List Char) :
    readLiteralBody (cs.flatMap literalChar ++ '"' :: rest) = some (cs, rest) := by
  induction cs with
  | nil => rw [List.flatMap_nil, List.nil_append, readLiteralBody]
  | cons c cs ih =>
    rw [List.flatMap_cons, List.append_assoc, literalChar]
    split
    · rename_i hquote
      simp [readLiteralBody, ih, hquote]
    · split
      · rename_i hslash
        simp [readLiteralBody, ih, hslash]
      · split
        · rename_i hfeed
          simp [readLiteralBody, ih, hfeed]
        · rw [List.singleton_append, readLiteralBody, ih]
          all_goals simp_all

theorem readLiteral?_append (text : String) (rest : List Char) :
    readLiteral? ((literal text).toList ++ rest) = some (text.toList, rest) := by
  rw [literal, String.toList_ofList, List.append_assoc, List.cons_append, readLiteral?]
  exact readLiteralBody_flatMap text.toList rest

theorem literal_inj {a b : String} (h : literal a = literal b) : a = b := by
  have hlists := congrArg String.toList h
  rw [literal, literal, String.toList_ofList, String.toList_ofList, List.cons_append,
    List.cons_append] at hlists
  have hread := congrArg readLiteralBody (List.cons.inj hlists).2
  rw [readLiteralBody_flatMap, readLiteralBody_flatMap] at hread
  exact String.toList_inj.mp (Prod.mk.inj (Option.some.inj hread)).1

/-- A character has only one form in a literal. -/
theorem eq_flatMap_of_readLiteralBody {t cs rest : List Char}
    (h : readLiteralBody t = some (cs, rest)) : t = cs.flatMap literalChar ++ '"' :: rest := by
  fun_induction readLiteralBody t generalizing cs with
  | case1 | case6 | case7 => cases h
  | case2 =>
    cases h
    rfl
  | case3 tail ih | case4 tail ih | case5 tail ih =>
    obtain ⟨⟨ds, rest'⟩, htail, heq⟩ := Option.map_eq_some_iff.mp h
    cases heq
    rw [ih htail]
    rfl
  | case8 c tail hquote _ _ _ hslash hfeed ih =>
    obtain ⟨⟨ds, rest'⟩, htail, heq⟩ := Option.map_eq_some_iff.mp h
    cases heq
    rw [ih htail, List.flatMap_cons, literalChar_of_ne ⟨hfeed, hquote, hslash⟩]
    rfl

theorem readLiteral?_eq_some_iff {t rest : List Char} {s : String} :
    readLiteral? t = some (s.toList, rest) ↔ t = (literal s).toList ++ rest := by
  constructor
  · intro h
    unfold readLiteral? at h
    split at h
    · rw [eq_flatMap_of_readLiteralBody h, toList_literal, List.cons_append, List.append_assoc,
        List.singleton_append]
    · cases h
  · intro h
    rw [h]
    exact readLiteral?_append s rest

/-- A literal with any text behind it is read as its string and that text, and no other text is read
so. It stands on one line, its closing quote is the first that has no backslash of its own, and two
literals with texts behind them are equal only if the strings and the texts are. -/
theorem literal_faithful (s : String) (rest : List Char) :
    readLiteral? ((literal s).toList ++ rest) = some (s.toList, rest) ∧
    (∀ t, readLiteral? t = some (s.toList, rest) → t = (literal s).toList ++ rest) ∧
    '\n' ∉ (literal s).toList ∧
    (∃ body, (literal s).toList = '"' :: (body ++ ['"']) ∧ Delimited body rest) ∧
    (∀ s' rest', (literal s).toList ++ rest = (literal s').toList ++ rest' → s = s' ∧ rest = rest') ∧
    Function.Injective literal := by
  refine ⟨readLiteral?_append s rest, fun t => readLiteral?_eq_some_iff.mp,
    feed_notMem_literal s, ⟨_, toList_literal s, delimited_flatMap _ rest⟩, ?_,
    fun _ _ => literal_inj⟩
  intro s' rest' h
  have hread : some (s.toList, rest) = some (s'.toList, rest') :=
    (readLiteral?_append s rest).symm.trans (readLiteral?_eq_some_iff.mpr h)
  obtain ⟨hs, hrest⟩ := Prod.mk.inj (Option.some.inj hread)
  exact ⟨String.toList_inj.mp hs, hrest⟩

/-- Backslashes in front of a quote, and a text behind that would go on with the literal -/
theorem literal_faithful_slashes :
    let name := "a\\\\\"\n"
    let rest := "\", b".toList
    let text := "\"a\\\\\\\\\\\"\\n\"\", b".toList
    (literal name).toList ++ rest = text ∧ readLiteral? text = some (name.toList, rest) ∧
      (∀ t, readLiteral? t = some (name.toList, rest) → t = text) ∧
      ∀ name' rest', text = (literal name').toList ++ rest' → name = name' ∧ rest = rest' := by
  intro name rest text
  have htext : (literal name).toList ++ rest = text := by decide +kernel
  obtain ⟨hread, honly, -, -, hdelimits, -⟩ := literal_faithful name rest
  rw [htext] at hread hdelimits
  exact ⟨htext, hread, fun t ht => (honly t ht).trans htext, hdelimits⟩

end NativeInterface.C

/-! ## Literals of sources -/

namespace NativeInterface.Text

/-- The character that a source means. -/
def Glyph.char : Glyph → Char
  | plain c => c
  | escaped 'n' => '\n'
  | escaped 't' => '\t'
  | escaped c => c

theorem Glyph.char_escaped (c : Char) : (escaped c).char = Lexeme.unescape c := by
  unfold char Lexeme.unescape
  grind

end NativeInterface.Text

namespace NativeInterface.Lexeme
open Text (Glyph glyphs glyphs_escaped glyphs_plain Delimited Unterminated)
variable {cs : List Char}

/-- A character that is no backslash in front of another one or of the end. -/
theorem ne_backslash {c : Char} (h : c = '\\' → cs = [] → False)
    (h' : ∀ d ds, c = '\\' → cs = d :: ds → False) : c ≠ '\\' := by
  intro hc
  cases cs with
  | nil => exact h hc rfl
  | cons d ds => exact h' d ds hc rfl

theorem ne_string_of_punctuation {c : Char} {k : Token.Kind} (h : punctuation? c = some k)
    (v : String) : k ≠ .string v := by
  rintro rfl
  unfold punctuation? at h
  split at h
  all_goals cases h

/-- A literal that is closed ends at its first quote that stands alone. -/
theorem literal_of_closed (h : (literal cs).closed) :
    ∃ body rest, cs = body ++ '"' :: rest ∧ Delimited body rest ∧
      (literal cs).text = body ++ ['"'] ∧ (literal cs).value = (glyphs body).map (·.char) := by
  fun_induction literal cs with
  | case1 | case2 | case4 => cases h
  | case3 c cs tail ih =>
    obtain ⟨body, rest, rfl, hbody, htext, hvalue⟩ := ih h
    refine ⟨'\\' :: c :: body, rest, rfl, hbody.escaped c, ?_, ?_⟩
    · dsimp only [tail]
      rw [htext]
      rfl
    · dsimp only [tail]
      rw [hvalue, glyphs_escaped, List.map_cons, Glyph.char_escaped]
  | case5 cs => exact ⟨[], cs, rfl, .nil, rfl, rfl⟩
  | case6 c cs hslash hslash' hfeed hquote tail ih =>
    have hplain := ne_backslash hslash hslash'
    obtain ⟨body, rest, rfl, hbody, htext, hvalue⟩ := ih h
    refine ⟨c :: body, rest, rfl, hbody.plain ⟨hfeed, hquote, hplain⟩, ?_, ?_⟩
    · dsimp only [tail]
      rw [htext]
      rfl
    · dsimp only [tail]
      rw [hvalue, glyphs_plain hplain]
      rfl

theorem unterminated_of_open (h : (literal cs).closed = false) : Unterminated (glyphs cs) := by
  fun_induction literal cs with
  | case1 | case2 => exact .inr List.not_mem_nil
  | case3 c cs tail ih =>
    rw [glyphs_escaped]
    exact (ih h).cons fun h => by cases h
  | case4 cs =>
    rw [glyphs_plain (by decide)]
    exact .inl ⟨[], _, rfl, List.not_mem_nil⟩
  | case5 => cases h
  | case6 c cs hslash hslash' hfeed hquote tail ih =>
    have hplain := ne_backslash hslash hslash'
    rw [glyphs_plain hplain]
    exact (ih h).cons fun h => hquote (Glyph.plain.inj h)

theorem closed_iff : (literal cs).closed ↔ ¬Unterminated (glyphs cs) := by
  constructor
  · intro h
    obtain ⟨body, rest, rfl, hbody, -⟩ := literal_of_closed h
    exact hbody.not_unterminated
  · intro h
    by_contra hopen
    exact h (unterminated_of_open (Bool.eq_false_iff.mpr hopen))

end NativeInterface.Lexeme

namespace NativeInterface.Lexed.InPlace
open Token (Kind)
open Text (encode glyphs Delimited Unterminated)
open Lexeme (scan isSpace)

/-! ### Turns of the lexer -/

/-- The states in which the lexer looks for its next token, each found by the turn before. -/
inductive Reached (f : SourceFile) : State → Prop
  | start : Reached f (.start f)
  | turn {s s' : State} {t? : Option Token} {turns : Nat} : Reached f s → ¬s.found.isFull →
    s.ahead.length + 2 ≤ turns → (token? turns).run s = some (t?, s') → Reached f s'

/-- The cursor stands in the text of the file, behind `front` and before `cs`. The last bytes `bs`
of `front` may still be ahead, if they belong to a character that starts nothing. -/
structure InText (f : SourceFile) (s : State) (front : List Char) (bs : List UInt8)
    (cs : List Char) : Prop where
  file : s.file = f
  text : f.text.toList = front ++ cs
  bytes : s.bytes = encode (front ++ cs)
  offset : s.offset + bs.length = (encode front).length
  left : bs <:+ encode front
  beyond : ∀ b ∈ bs, 128 ≤ b.toNat

namespace InText
variable {f : SourceFile} {s s' : State} {front cs : List Char} {bs : List UInt8} {turns : Nat}

theorem start (f : SourceFile) : InText f (.start f) [] [] f.text.toList where
  file := rfl
  text := rfl
  bytes := Text.bytes_eq_encode f.text
  offset := rfl
  left := List.nil_suffix
  beyond _ hb := absurd hb List.not_mem_nil

theorem ahead (h : InText f s front bs cs) : s.ahead = bs ++ encode cs := by
  obtain ⟨passed, hpassed⟩ := h.left
  have hlength := h.offset
  rw [← hpassed, List.length_append] at hlength
  have hoffset : s.offset = passed.length := by omega
  rw [State.ahead, h.bytes, hoffset, Text.encode_append, ← hpassed, List.append_assoc,
    List.drop_left]

/-- Only the bytes and the place of the cursor in them count. -/
theorem of_eq (h : InText f s front bs cs) (hfile : s'.file = s.file) (hbytes : s'.bytes = s.bytes)
    (hoffset : s'.offset = s.offset) : InText f s' front bs cs where
  file := hfile.trans h.file
  text := h.text
  bytes := hbytes.trans h.bytes
  offset := by rw [hoffset, h.offset]
  left := h.left
  beyond := h.beyond

theorem past {mid : List Char} (h : InText f s front [] (mid ++ cs)) :
    InText f (s.past (encode mid)) (front ++ mid) [] cs where
  file := h.file
  text := h.text.trans (List.append_assoc ..).symm
  bytes := by rw [List.append_assoc]; exact h.bytes
  offset := by
    have hoffset : s.offset = (encode front).length := h.offset
    rw [State.past, hoffset, Text.encode_append, List.length_append]
    rfl
  left := List.nil_suffix
  beyond _ hb := absurd hb List.not_mem_nil

/-- The first byte of a character that starts nothing. -/
theorem stray {c : Char} {b : UInt8} (h : InText f s front [] (c :: cs)) (hc : 128 ≤ c.toNat)
    (hbytes : String.utf8EncodeChar c = b :: bs) :
    InText f (s.past [b]) (front ++ [c]) bs cs where
  file := h.file
  text := h.text.trans (List.append_cons ..)
  bytes := by rw [← List.append_cons]; exact h.bytes
  offset := by
    have hoffset : s.offset = (encode front).length := h.offset
    rw [State.past, hoffset, Text.encode_append, List.length_append, Text.encode_cons, hbytes]
    simp only [List.length_cons, List.length_nil, List.length_append, Text.encode_nil]
    omega
  left := by
    rw [Text.encode_append, Text.encode_cons, Text.encode_nil, List.append_nil, hbytes]
    exact (List.suffix_cons b bs).trans (List.suffix_append _ _)
  beyond b' hb' := by
    apply utf8EncodeChar_beyond hc
    rw [hbytes]
    exact List.mem_cons_of_mem b hb'

/-- One more byte of it. -/
theorem tail {b : UInt8} (h : InText f s front (b :: bs) cs) :
    InText f (s.past [b]) front bs cs where
  file := h.file
  text := h.text
  bytes := h.bytes
  offset := by
    have hoffset := h.offset
    rw [List.length_cons] at hoffset
    rw [State.past]
    dsimp only [List.length_singleton]
    omega
  left := (List.suffix_cons b bs).trans h.left
  beyond b' hb' := h.beyond b' (List.mem_cons_of_mem b hb')

end InText

/-- What a turn from `s` ends with. -/
structure Turn (f : SourceFile) (turns : Nat) (s : State) (t? : Option Token) (s' : State) :
    Prop where
  run : (token? turns).run s = some (t?, s')
  inText : ∃ front bs cs, InText f s' front bs cs
  moves : s'.ahead.length < s.ahead.length ∨ ∃ t, t? = some t ∧ t.kind = .eof
  /-- A string starts with a quote. -/
  quote : ∀ t v, t? = some t → t.kind = .string v →
    ∃ s₁, (skipTrivia turns).run s = some ((), s₁) ∧ s₁.char? = some '"'

namespace Turn
variable {f : SourceFile} {s s' : State} {front cs : List Char} {bs : List UInt8} {turns : Nat}

/-- A turn over one byte of a character that starts nothing. -/
theorem stray {b : UInt8} {rest : List UInt8} (hskip : (skipTrivia turns).run s = some ((), s'))
    (hahead : s'.ahead = b :: rest) (hb : 128 ≤ b.toNat) (hle : s'.ahead.length ≤ s.ahead.length)
    (h : InText f (s'.past [b]) front bs cs) : ∃ t? s'', Turn f turns s t? s'' := by
  have hrun := token?_of_byte hskip hahead (run_kind?_beyond hb)
  rw [State.advanced_eq hahead] at hrun
  refine ⟨none, _, hrun, ⟨front, bs, cs, h.of_eq rfl rfl rfl⟩, .inl ?_, fun t v ht => by cases ht⟩
  have hnext : ((s'.past [b]).reported (.unexpectedByte b)
      (.between s'.position (s'.past [b]).position)).ahead = rest := State.ahead_past hahead
  rw [hahead, List.length_cons] at hle
  rw [hnext]
  omega

/-- The turn at the end of the file. -/
theorem atEnd (hskip : (skipTrivia turns).run s = some ((), s')) (hahead : s'.ahead = [])
    (h : InText f s' front [] cs) : ∃ t? s'', Turn f turns s t? s'' := by
  refine ⟨_, _, token?_of_end hskip hahead, ⟨front, [], cs, ?_⟩, .inr ⟨_, rfl, rfl⟩, ?_⟩
  · split
    · exact h.of_eq rfl rfl rfl
    · exact h
  · rintro t v ⟨⟩ hv
    cases hv

/-- A turn over a lexeme. -/
theorem scanned {c : Char} (hskip : (skipTrivia turns).run s = some ((), s'))
    (h : InText f s' front [] (c :: cs)) (hc : c.toNat < 128) (hspace : isSpace c = false)
    (hcomment : c ≠ '#') (hturns : (encode cs).length < turns)
    (hle : s'.ahead.length ≤ s.ahead.length) :
    Turn f turns s
      ((scan c cs).1.tokenKind?.map
        (⟨·, .between s'.position (s'.position.after (c :: (scan c cs).2))⟩))
      (s'.scanned (c :: (scan c cs).2) (scan c cs).1) := by
  have hahead : s'.ahead = encode (c :: cs) := h.ahead
  have hkind := run_kind? hahead hc hspace hcomment hturns
  rw [← State.advanced_of_ascii hahead hc] at hkind
  have hrun := token?_of_byte hskip (hahead.trans (encode_ascii hc cs)) hkind
  rw [position_scanned] at hrun
  have hnext := ahead_scanned hahead
  have hsplit := List.prefix_iff_eq_append.mp (Lexeme.scan_isPrefix c cs)
  have hpast : InText f (s'.past (encode (c :: (scan c cs).2))) (front ++ c :: (scan c cs).2) []
      (cs.drop (scan c cs).2.length) := by
    apply InText.past
    rwa [List.cons_append, hsplit]
  refine ⟨hrun, ⟨_, _, _, hpast.of_eq rfl rfl rfl⟩, .inl ?_, ?_⟩
  · have hlength := congrArg (fun ds => (encode ds).length) hsplit
    rw [Text.encode_append, List.length_append] at hlength
    rw [hahead, encode_ascii hc, List.length_cons] at hle
    rw [hnext]
    omega
  · intro t v ht hv
    obtain ⟨k, hk, rfl⟩ := Option.map_eq_some_iff.mp ht
    obtain rfl : k = .string v := hv
    refine ⟨s', hskip, ?_⟩
    rcases hscan : scan c cs with ⟨r, text⟩
    rw [hscan] at hk
    cases Lexeme.scanned_of_scan hscan with
    | string hquote => exact hquote ▸ State.char?_of_ascii hahead hc
    | mark hmark => exact absurd (Option.some.inj hk) (Lexeme.ne_string_of_punctuation hmark v)
    | _ => cases hk

end Turn

/-- Every turn ends, in the text of the file. -/
theorem InText.exists_turn {f : SourceFile} {s : State} {front cs : List Char} {bs : List UInt8}
    {turns : Nat} (h : InText f s front bs cs) (hturns : s.ahead.length + 2 ≤ turns) :
    ∃ t? s', Turn f turns s t? s' := by
  cases bs with
  | cons b bs =>
    obtain ⟨n, rfl⟩ : ∃ n, turns = n + 1 := ⟨turns - 1, by omega⟩
    have hb := h.beyond b List.mem_cons_self
    exact Turn.stray (skipTrivia_of_beyond h.ahead hb) h.ahead hb (Nat.le_refl _) h.tail
  | nil =>
    obtain ⟨blanks, rest, rfl, hskips⟩ := exists_skips h.ahead hturns
    have hpast := h.past
    have hahead : (s.past (encode blanks)).ahead = encode rest := hpast.ahead
    have hle : (s.past (encode blanks)).ahead.length ≤ s.ahead.length := by
      rw [hahead, h.ahead, List.nil_append, Text.encode_append, List.length_append]
      exact Nat.le_add_left _ _
    cases rest with
    | nil => exact Turn.atEnd hskips.run hahead hpast
    | cons c rest =>
      obtain ⟨hspace, hcomment⟩ := hskips.stops c rfl
      by_cases hc : c.toNat < 128
      · have hlength := hle
        rw [hahead, encode_ascii hc, List.length_cons] at hlength
        exact ⟨_, _, .scanned hskips.run hpast hc hspace hcomment (by omega) hle⟩
      · obtain ⟨b, bs, hbytes⟩ := exists_utf8EncodeChar c
        have hbeyond := Nat.le_of_not_lt hc
        have hb := utf8EncodeChar_beyond hbeyond b (by rw [hbytes]; exact List.mem_cons_self)
        rw [Text.encode_cons, hbytes, List.cons_append] at hahead
        exact Turn.stray hskips.run hahead hb hle (hpast.stray hbeyond hbytes)

theorem Reached.inText {f : SourceFile} {s : State} (h : Reached f s) :
    ∃ front bs cs, InText f s front bs cs := by
  induction h with
  | start => exact ⟨_, _, _, .start f⟩
  | turn _ _ hturns hrun ih =>
    obtain ⟨front, bs, cs, hs⟩ := ih
    obtain ⟨t?, s', hturn⟩ := hs.exists_turn hturns
    cases hrun.symm.trans hturn.run
    exact hturn.inText

/-! ### Strings -/

/-- The diagnostic for a literal that is left open. -/
def unterminated (f : SourceFile) (span : Span) : Diagnostic :=
  .inFile f Code.unclosedDelimiter "unterminated string literal" span

/-- How a string literal is scanned by a turn from `s` to `s'`. The cursor of `s₁` is in front of
its opening quote, the text `front` of the file is behind the cursor and the text `cs` behind the
quote. -/
structure ScansString (f : SourceFile) (turns : Nat) (s s₁ : State) (front cs : List Char)
    (v : String) (s' : State) : Prop where
  text : f.text.toList = front ++ '"' :: cs
  offset : s₁.offset = (encode front).length
  /-- The bytes that are collected encode the value, so nothing has to be put in their place. -/
  buffer : ∃ buffer, (literal s₁.position turns []).run s₁.advanced = some (buffer, s') ∧
    String.fromUTF8? ⟨buffer.toArray⟩ = some v
  token : (token? turns).run s = some (some ⟨.string v, .between s₁.position s'.position⟩, s')
  reported : s'.found = s.found.push (unterminated f (.between s₁.position s'.position)) ↔
    Unterminated (glyphs cs)
  silent : s'.found = s.found ↔ ¬Unterminated (glyphs cs)
  /-- The value of a literal without a fault is what stands between its quotes. -/
  value : ¬Unterminated (glyphs cs) → ∃ body rest, cs = body ++ '"' :: rest ∧ Delimited body rest ∧
    v.toList = (glyphs body).map (·.char) ∧
    s'.offset = (encode (front ++ '"' :: (body ++ ['"']))).length

theorem push_ne (found : Diagnostics) (d : Diagnostic) : found.push d ≠ found := by
  intro h
  have htotal : found.total + 1 = found.total := congrArg Diagnostics.total h
  omega

section
variable {f : SourceFile} {s s₁ : State} {turns : Nat}

/-- The state behind a string literal that starts at the cursor. -/
def State.behindString (s : State) (cs : List Char) : State :=
  (s.past (encode ['"'])).literalEnd s.position (Lexeme.literal cs)

theorem behindString_eq_scanned (s : State) (cs : List Char) (v : String) :
    s.behindString cs = s.scanned ('"' :: (Lexeme.literal cs).text) (.token (.string v)
      (if (Lexeme.literal cs).closed then none else some .unterminatedString)) := by
  rw [State.behindString, State.literalEnd_past]
  unfold State.literalEnd
  dsimp only
  cases (Lexeme.literal cs).closed with
  | true => rfl
  | false => rfl

theorem position_behindString (s : State) (cs : List Char) :
    (s.behindString cs).position = s.position.after ('"' :: (Lexeme.literal cs).text) := by
  rw [behindString_eq_scanned s cs "", position_scanned]

theorem offset_behindString (s : State) (cs : List Char) :
    (s.behindString cs).offset = s.offset + (encode ('"' :: (Lexeme.literal cs).text)).length := by
  rw [behindString_eq_scanned s cs ""]
  rfl

theorem found_behindString (s : State) (cs : List Char) :
    (s.behindString cs).found = if (Lexeme.literal cs).closed then s.found else
      s.found.push (unterminated s.file (.between s.position (s.behindString cs).position)) := by
  rw [position_behindString, behindString_eq_scanned s cs "", found_scanned]
  cases (Lexeme.literal cs).closed with
  | true => rfl
  | false => rfl

theorem InText.scansString {front cs : List Char} (h : InText f s₁ front [] ('"' :: cs))
    (hskip : (skipTrivia turns).run s = some ((), s₁)) (hturns : (encode cs).length < turns)
    (hle : s₁.ahead.length ≤ s.ahead.length) (hfound : s₁.found = s.found) :
    ScansString f turns s s₁ front cs (String.ofList (Lexeme.literal cs).value)
      (s₁.behindString cs) := by
  have hahead : s₁.ahead = encode ('"' :: cs) := h.ahead
  have hnext : (s₁.past (encode ['"'])).ahead = encode cs := State.ahead_past_encode hahead
  have hreport := found_behindString s₁ cs
  rw [hfound, h.file] at hreport
  constructor
  case text => exact h.text
  case offset => exact h.offset
  case buffer =>
    refine ⟨encode (Lexeme.literal cs).value, ?_, fromUTF8?_encode _⟩
    rw [State.advanced_of_ascii hahead (by decide), run_literal hnext hturns]
    rfl
  case token =>
    have hrun := (Turn.scanned hskip h (by decide) (by decide) (by decide) hturns hle).run
    rw [Lexeme.scan_quote, ← behindString_eq_scanned, ← position_behindString] at hrun
    exact hrun
  case reported =>
    rw [hreport, ← not_iff_not, ← Lexeme.closed_iff]
    split
    · rename_i hclosed
      exact ⟨fun _ => hclosed, fun _ heq => push_ne _ _ heq.symm⟩
    · rename_i hopen
      exact ⟨fun hne => absurd rfl hne, fun hclosed => absurd hclosed hopen⟩
  case silent =>
    rw [hreport, ← Lexeme.closed_iff]
    split
    · rename_i hclosed
      exact ⟨fun _ => hclosed, fun _ => rfl⟩
    · rename_i hopen
      exact ⟨fun heq => absurd heq (push_ne _ _), fun hclosed => absurd hclosed hopen⟩
  case value =>
    intro hclosed
    obtain ⟨body, rest, hcs, hbody, htext, hvalue⟩ :=
      Lexeme.literal_of_closed (Lexeme.closed_iff.mpr hclosed)
    refine ⟨body, rest, hcs, hbody, by rw [String.toList_ofList, hvalue], ?_⟩
    have hoffset : s₁.offset = (encode front).length := h.offset
    rw [offset_behindString, htext, Text.encode_append, List.length_append, hoffset]

/-- A quote that the lexer looks at is the opening quote of a string literal. -/
theorem Reached.scansString (h : Reached f s) (hturns : s.ahead.length + 2 ≤ turns)
    (hskip : (skipTrivia turns).run s = some ((), s₁)) (hquote : s₁.char? = some '"') :
    ∃ front cs v s', ScansString f turns s s₁ front cs v s' := by
  obtain ⟨front, bs, cs, hs⟩ := h.inText
  cases bs with
  | cons b bs =>
    obtain ⟨n, rfl⟩ : ∃ n, turns = n + 1 := ⟨turns - 1, by omega⟩
    have hb := hs.beyond b List.mem_cons_self
    cases hskip.symm.trans (skipTrivia_of_beyond hs.ahead hb)
    rw [State.char?, State.byte?_eq, hs.ahead] at hquote
    rw [← toNat_byteChar, Option.some.inj hquote] at hb
    exact absurd hb (by decide)
  | nil =>
    obtain ⟨blanks, rest, rfl, hskips⟩ := exists_skips hs.ahead hturns
    cases hskip.symm.trans hskips.run
    have hpast := hs.past
    have hahead : (s.past (encode blanks)).ahead = encode rest := hpast.ahead
    obtain ⟨cs, rfl⟩ := List.head?_eq_some_iff.mp
      ((State.char?_eq_some_iff hahead (by decide)).mp hquote)
    have hle : (s.past (encode blanks)).ahead.length ≤ s.ahead.length := by
      rw [hahead, hs.ahead, List.nil_append, Text.encode_append, List.length_append]
      exact Nat.le_add_left _ _
    have hlength := hle
    rw [hahead, encode_ascii (by decide), List.length_cons] at hlength
    exact ⟨_, cs, _, _, hpast.scansString hskip (by omega) hle rfl⟩

/-- The tokens that the loop adds were found by turns. -/
theorem Reached.exists_turn_of_mem {ts ts' : List Token} {s' : State} (h : Reached f s)
    (hturns : s.ahead.length + 3 ≤ turns) (hrun : (tokens turns ts).run s = some (ts', s'))
    {t : Token} (ht : t ∈ ts') :
    t ∈ ts ∨ ∃ s turns s', Reached f s ∧ s.ahead.length + 2 ≤ turns ∧
      Turn f turns s (some t) s' := by
  induction turns generalizing s ts with
  | zero => omega
  | succ turns ih =>
    by_cases hroom : s.found.isFull
    · rw [tokens_of_full hroom] at hrun
      cases hrun
      exact .inl ht
    obtain ⟨front, bs, cs, hs⟩ := h.inText
    have hturns' : s.ahead.length + 2 ≤ turns := by omega
    obtain ⟨t?, s'', hturn⟩ := hs.exists_turn hturns'
    have hnext : Reached f s'' := h.turn hroom hturns' hturn.run
    cases t? with
    | none =>
      have hless := hturn.moves.resolve_right (by rintro ⟨_, hnone, -⟩; cases hnone)
      rw [tokens_of_none hroom hturn.run] at hrun
      exact ih hnext (by omega) hrun
    | some u =>
      have hfound (hmem : t ∈ ts ++ [u]) : t ∈ ts ∨ ∃ s turns s', Reached f s ∧
          s.ahead.length + 2 ≤ turns ∧ Turn f turns s (some t) s' := by
        rcases List.mem_append.mp hmem with hmem | hmem
        · exact .inl hmem
        · rw [List.mem_singleton.mp hmem]
          exact .inr ⟨s, turns, s'', h, hturns', hturn⟩
      by_cases heof : u.kind = .eof
      · rw [tokens_of_eof hroom hturn.run heof] at hrun
        cases hrun
        exact hfound ht
      have hless := hturn.moves.resolve_right (by rintro ⟨_, ⟨⟩, hkind⟩; exact heof hkind)
      by_cases hjoins : u.kind = .newline ∧ joinsLines s''.depth ts
      · rw [tokens_of_joined hroom hturn.run hjoins.1 hjoins.2] at hrun
        exact ih hnext (by omega) hrun
      · rw [tokens_of_token hroom hturn.run heof hjoins] at hrun
        exact (ih hnext (by omega) hrun).elim hfound .inr

/-- Closing the list of tokens adds nothing but the end of the file. -/
theorem mem_of_mem_close {ts ts' : List Token} {s s' : State}
    (h : (close ts).run s = some (ts', s')) {t : Token} (ht : t ∈ ts') (hkind : t.kind ≠ .eof) :
    t ∈ ts := by
  unfold close at h
  split at h
  · cases h
    exact ht
  · cases h
    rcases List.mem_append.mp ht with ht | ht
    · exact ht
    · rw [List.mem_singleton.mp ht] at hkind
      exact absurd rfl hkind

theorem exists_turn_of_mem_lex {t : Token} (ht : t ∈ (lex f.text).tokens) (hkind : t.kind ≠ .eof) :
    ∃ s turns s', Reached f s ∧ s.ahead.length + 2 ≤ turns ∧ Turn f turns s (some t) s' := by
  have hturns : (State.start f).ahead.length + 3 ≤ f.text.utf8ByteSize + 3 := Nat.le_refl _
  obtain ⟨s', hfile, -⟩ := run_file (f := f) (Nat.le_refl _)
  cases hrun : (tokens (f.text.utf8ByteSize + 3) []).run (State.start f) with
  | none =>
    rw [file, StateT.run_bind, hrun] at hfile
    cases hfile
  | some found =>
    obtain ⟨ts, s⟩ := found
    rw [file, Outcome.run_bind hrun] at hfile
    have hmem := mem_of_mem_close hfile ht hkind
    exact (Reached.start.exists_turn_of_mem hturns hrun hmem).resolve_left List.not_mem_nil

end

/-- The lexer works on bytes, but it reads string literals as characters. Wherever it meets the
opening quote of one, the bytes that it collects are those of a text. That is what stands between
the quotes, each character as it is or as its escape says; and the literal is reported as open
exactly if a line feed or the end of the file comes before its closing quote. All string tokens of a
file are found so. -/
theorem strings_of_file (f : SourceFile) :
    (∀ s turns s₁, Reached f s → s.ahead.length + 2 ≤ turns →
      (skipTrivia turns).run s = some ((), s₁) → s₁.char? = some '"' →
      ∃ front cs v s', ScansString f turns s s₁ front cs v s') ∧
    ∀ t ∈ (lex f.text).tokens, ∀ v, t.kind = .string v →
      ∃ s turns s₁ front cs s', Reached f s ∧ s.ahead.length + 2 ≤ turns ∧
        ScansString f turns s s₁ front cs v s' ∧ t.span = .between s₁.position s'.position := by
  refine ⟨fun s turns s₁ h hturns hskip hquote => h.scansString hturns hskip hquote, ?_⟩
  intro t ht v hv
  obtain ⟨s, turns, s', h, hturns, hturn⟩ :=
    exists_turn_of_mem_lex ht (by rw [hv]; exact fun h => by cases h)
  obtain ⟨s₁, hskip, hquote⟩ := hturn.quote t v rfl hv
  obtain ⟨front, cs, w, s'', hscan⟩ := h.scansString hturns hskip hquote
  cases hturn.run.symm.trans hscan.token
  cases hv
  exact ⟨s, turns, s₁, front, cs, s', h, hturns, hscan, rfl⟩

/-- A literal of a two-byte character, escapes and a line feed, and one that is left open. -/
theorem strings_of_file_escapes :
    let f : SourceFile := ⟨"a.spec", "x \"\\é\\\"\\\n\\t\" \"b\n"⟩
    (lex f.text).faults.map (·.cause) = [.unterminatedString] ∧
    ∀ v ∈ ["é\"\n\t", "b"], ∃ t ∈ (lex f.text).tokens, t.kind = .string v ∧
      ∃ s turns s₁ front cs s', Reached f s ∧ s.ahead.length + 2 ≤ turns ∧
        ScansString f turns s s₁ front cs v s' ∧ t.span = .between s₁.position s'.position := by
  intro f
  refine ⟨by decide +kernel, fun v hv => ?_⟩
  have hkinds : ∀ v ∈ ["é\"\n\t", "b"], ∃ t ∈ (lex f.text).tokens, t.kind = .string v := by
    decide +kernel
  obtain ⟨t, ht, hkind⟩ := hkinds v hv
  exact ⟨t, ht, hkind, (strings_of_file f).2 t ht v hkind⟩

end NativeInterface.Lexed.InPlace
