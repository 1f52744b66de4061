import NativeInterface.Proofs.TokenPlaces

/-!
# Bytes by line and column

A line feed is one byte, and no other character has this byte among its own. Columns count bytes, so
the place of a text leads back to its bytes by way of the bytes that the lines start with
(`Span.range?_between`).
-/

namespace NativeInterface

/-! ## Bytes of characters -/

namespace Text

/-- The bytes of a text. -/
def bytes (text : String) : List UInt8 := text.toUTF8.data.toList

/-- The bytes that characters are encoded with. -/
def encode (cs : List Char) : List UInt8 := cs.flatMap String.utf8EncodeChar

theorem bytes_eq_encode (text : String) : bytes text = encode text.toList := by
  rw [bytes, String.toUTF8_eq_toByteArray, ← String.utf8Encode_toList]
  exact List.toList_data_toByteArray

@[simp] theorem encode_nil : encode [] = [] := rfl

@[simp] theorem encode_cons (c : Char) (cs : List Char) :
    encode (c :: cs) = String.utf8EncodeChar c ++ encode cs :=
  List.flatMap_cons

@[simp] theorem encode_append (cs ds : List Char) : encode (cs ++ ds) = encode cs ++ encode ds :=
  List.flatMap_append

theorem utf8EncodeChar_eq (c : Char) : String.utf8EncodeChar c =
    if c.toNat ≤ 127 then [UInt8.ofNat c.toNat]
    else if c.toNat ≤ 2047 then
      [UInt8.ofNat (c.toNat / 64 % 32 + 192), UInt8.ofNat (c.toNat % 64 + 128)]
    else if c.toNat ≤ 65535 then
      [UInt8.ofNat (c.toNat / 4096 % 16 + 224), UInt8.ofNat (c.toNat / 64 % 64 + 128),
        UInt8.ofNat (c.toNat % 64 + 128)]
    else
      [UInt8.ofNat (c.toNat / 262144 % 8 + 240), UInt8.ofNat (c.toNat / 4096 % 64 + 128),
        UInt8.ofNat (c.toNat / 64 % 64 + 128), UInt8.ofNat (c.toNat % 64 + 128)] :=
  rfl

/-- An ASCII character is one byte; every byte of any other character is beyond ASCII. -/
theorem utf8EncodeChar_cases (c : Char) :
    (c.toNat < 128 ∧ String.utf8EncodeChar c = [UInt8.ofNat c.toNat]) ∨
      128 ≤ c.toNat ∧ ∀ b ∈ String.utf8EncodeChar c, 128 ≤ b.toNat := by
  rw [utf8EncodeChar_eq]
  by_cases hascii : c.toNat ≤ 127
  · rw [if_pos hascii]
    exact .inl ⟨by omega, rfl⟩
  · rw [if_neg hascii]
    refine .inr ⟨by omega, ?_⟩
    split
    · simp
      omega
    · split
      · simp
        omega
      · simp
        omega

theorem feed_notMem_utf8EncodeChar {c : Char} (hc : c ≠ '\n') : 10 ∉ String.utf8EncodeChar c := by
  intro hmem
  rcases utf8EncodeChar_cases c with ⟨hascii, hbytes⟩ | ⟨-, hbytes⟩
  · rw [hbytes, List.mem_singleton] at hmem
    have hnat : (10 : UInt8).toNat = c.toNat := by
      rw [hmem, UInt8.toNat_ofNat']
      omega
    exact hc (Char.toNat_inj.mp hnat.symm)
  · exact absurd (hbytes 10 hmem) (by decide)

end Text

/-! ## Where lines start -/

namespace Text

/-- The places behind the line feeds among bytes, of which the first is the byte `n`. -/
def behindFeeds (n : Nat) : List UInt8 → List Nat
  | [] => []
  | b :: bs => if b = 10 then (n + 1) :: behindFeeds (n + 1) bs else behindFeeds (n + 1) bs

/-- Where the lines of a text start: at its first byte, and behind each line feed. -/
def lineStarts (bytes : List UInt8) : List Nat := 0 :: behindFeeds 0 bytes

theorem behindFeeds_append_of_notMem {bs : List UInt8} (h : 10 ∉ bs) (n : Nat)
    (rest : List UInt8) : behindFeeds n (bs ++ rest) = behindFeeds (n + bs.length) rest := by
  induction bs generalizing n with
  | nil => rfl
  | cons b bs ih =>
    rw [List.mem_cons, not_or] at h
    have hb : b ≠ 10 := Ne.symm h.1
    rw [List.cons_append, behindFeeds, if_neg hb, ih h.2, List.length_cons]
    congr 1
    omega

end Text

/-- The byte at a line and a column, both counted from one, when the lines start at these bytes. -/
def byteAt? (starts : List Nat) : Nat × Nat → Option Nat
  | (line + 1, column + 1) => starts[line]?.map (· + column)
  | _ => none

/-- Bytes from one place up to and not including another one. -/
structure ByteRange where
  start : Nat
  stop : Nat
  deriving DecidableEq, Repr, Inhabited

/-- The bytes of a span. -/
def Span.range? (s : Span) (starts : List Nat) : Option ByteRange := do
  let first ← byteAt? starts s.first
  let last ← byteAt? starts s.last
  return ⟨first, last + 1⟩

open Text

/-- The last line start in front of a position and the column of the position give its byte. What
varies along the text is how many lines have been passed. -/
theorem byteAt?_after_from (pre post : List Char) (passed : List Nat) (start n : Nat)
    (p : Position) (hline : p.line = passed.length + 1) (hcolumn : start + p.column = n + 1)
    (hpos : 1 ≤ p.column) :
    byteAt? (passed ++ start :: behindFeeds n (encode (pre ++ post))) (p.after pre).pair =
      some (n + (encode pre).length) := by
  induction pre generalizing passed start n p with
  | nil =>
    obtain ⟨line, column⟩ := p
    obtain ⟨column, rfl⟩ := Nat.exists_eq_add_of_le' hpos
    dsimp only at hline hcolumn
    subst hline
    simp only [Position.after, List.foldl_nil, Position.pair, byteAt?, List.nil_append,
      List.getElem?_append_right (Nat.le_refl passed.length), Nat.sub_self, List.getElem?_cons_zero,
      Option.map_some, encode_nil, List.length_nil, Nat.add_zero, Option.some.injEq]
    omega
  | cons c pre ih =>
    have hafter : p.after (c :: pre) = (p.next c).after pre := rfl
    rw [hafter, List.cons_append, encode_cons, encode_cons, List.length_append]
    by_cases hfeed : c = '\n'
    · subst hfeed
      have hnext : p.next '\n' = ⟨p.line + 1, 1⟩ := rfl
      have hbytes : behindFeeds n (String.utf8EncodeChar '\n' ++ encode (pre ++ post)) =
          (n + 1) :: behindFeeds (n + 1) (encode (pre ++ post)) := rfl
      rw [hnext, hbytes]
      have hrest := ih (passed ++ [start]) (n + 1) (n + 1) ⟨p.line + 1, 1⟩
        (by simp [hline]) rfl (Nat.le_refl 1)
      rw [List.append_assoc, List.singleton_append] at hrest
      rw [hrest, Nat.add_assoc]
      rfl
    · have hnext : p.next c = ⟨p.line, p.column + c.utf8Size⟩ := if_neg hfeed
      rw [behindFeeds_append_of_notMem (feed_notMem_utf8EncodeChar hfeed),
        String.length_utf8EncodeChar, hnext, ← Nat.add_assoc]
      exact ih passed start (n + c.utf8Size) ⟨p.line, p.column + c.utf8Size⟩ hline
        (by dsimp only; omega) (Nat.le_add_right_of_le hpos)

/-- The position behind the front of a text leads to the byte behind that front. -/
theorem byteAt?_after (pre post : List Char) :
    byteAt? (lineStarts (encode (pre ++ post))) (Position.start.after pre).pair =
      some (encode pre).length := by
  have h := byteAt?_after_from pre post [] 0 0 Position.start rfl rfl (Nat.le_refl 1)
  rw [List.nil_append, Nat.zero_add] at h
  exact h

theorem byteAt?_pred {starts : List Nat} {line column n : Nat} (hcolumn : 2 ≤ column)
    (h : byteAt? starts (line, column) = some n) :
    ∃ m, n = m + 1 ∧ byteAt? starts (line, column - 1) = some m := by
  obtain ⟨column, rfl⟩ := Nat.exists_eq_add_of_le' hcolumn
  cases line with
  | zero => cases h
  | succ line =>
    obtain ⟨start, hstart, rfl⟩ := Option.map_eq_some_iff.mp h
    refine ⟨start + column, rfl, ?_⟩
    rw [show column + 2 - 1 = column + 1 from rfl, byteAt?, hstart]
    rfl

theorem Position.two_le_column_after {p : Position} (hp : 1 ≤ p.column) {text : List Char}
    {c : Char} (hlast : text.getLast? = some c) (hc : c ≠ '\n') : 2 ≤ (p.after text).column := by
  obtain ⟨init, rfl⟩ := List.getLast?_eq_some_iff.mp hlast
  have hnext : (p.after init).after [c] =
      ⟨(p.after init).line, (p.after init).column + c.utf8Size⟩ := if_neg hc
  rw [after_append, hnext]
  have := column_after hp init
  have := c.utf8Size_pos
  dsimp only
  omega

/-- The span of a text whose last character is no line feed covers the bytes of the text. -/
theorem Span.range?_between (pre : List Char) {text : List Char} {c : Char}
    (hlast : text.getLast? = some c) (hc : c ≠ '\n') (post : List Char) :
    (Span.between (Position.start.after pre) (Position.start.after (pre ++ text))).range?
        (lineStarts (encode (pre ++ text ++ post))) =
      some ⟨(encode pre).length, (encode (pre ++ text)).length⟩ := by
  have hfirst := byteAt?_after pre (text ++ post)
  have hbehind := byteAt?_after (pre ++ text) post
  rw [← List.append_assoc] at hfirst
  have hcolumn : 2 ≤ (Position.start.after (pre ++ text)).column := by
    rw [Position.after_append]
    exact Position.two_le_column_after (Position.column_after (Nat.le_refl 1) pre) hlast hc
  obtain ⟨m, hm, hend⟩ := byteAt?_pred hcolumn hbehind
  have hmax : max ((Position.start.after (pre ++ text)).column - 1) 1 =
      (Position.start.after (pre ++ text)).column - 1 := by omega
  unfold range? Span.between Span.first Span.last
  dsimp only
  rw [hmax, hend, show byteAt? _ ((Position.start.after pre).line,
    (Position.start.after pre).column) = _ from hfirst, hm]
  rfl

end NativeInterface
