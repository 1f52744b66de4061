import NativeInterface.Proofs.FaultFree
import NativeInterface.Proofs.LineStarts

/-!
# Tokens tile the text

The tokens of a text without faults, line ends apart, cover stretches of its bytes one behind the
other. What is left between them are blanks, line feeds and comments, and each stretch alone is read
as its token (`tiles_of_lex`). The stretches are found from the lines and the columns that the
tokens are given.
-/

namespace NativeInterface
open Token (Kind)
open Text (bytes encode lineStarts)

/-- The tokens that a text is written with; line ends and the end of the file are left out. -/
def writtenTokens (text : String) : List Token := (lex text).tokens.filter (!·.kind.endsLine)

/-- The bytes of the written tokens, by their lines and columns. -/
def tokenRanges (text : String) : List ByteRange :=
  (writtenTokens text).filterMap (·.span.range? (lineStarts (bytes text)))

instance : Membership Nat ByteRange := ⟨fun r i => r.start ≤ i ∧ i < r.stop⟩

/-- The byte `i` is part of a comment: a `#` outside of the ranges stands at or before it on its
line. -/
def InComment (bytes : List UInt8) (ranges : List ByteRange) (i : Nat) : Prop :=
  ∃ j ≤ i, bytes[j]? = some 35 ∧ (∀ r ∈ ranges, j ∉ r) ∧
    ∀ m, j ≤ m → m ≤ i → ∃ b, bytes[m]? = some b ∧ b ≠ 10

/-- Ranges of bytes that tokens cover one behind the other, with nothing but blanks, line feeds and
comments between them. -/
structure Tiles (text : String) (tokens : List Token) (ranges : List ByteRange) : Prop where
  /-- The places of the tokens lead to the ranges. -/
  placed : tokens.map (·.span.range? (lineStarts (bytes text))) = ranges.map some
  nonempty : ∀ r ∈ ranges, r.start < r.stop ∧ r.stop ≤ (bytes text).length
  ordered : ranges.Pairwise fun r r' => r.stop ≤ r'.start
  gaps : ∀ i b, (bytes text)[i]? = some b → (∀ r ∈ ranges, i ∉ r) →
    b ∈ [32, 9, 13, 10] ∨ InComment (bytes text) ranges i
  /-- The bytes of a range alone are read as its token, and an opening bracket alone is reported as
  never closed. -/
  alone : List.Forall₂ (fun t r => ∃ piece : String,
    bytes piece = ((bytes text).take r.stop).drop r.start ∧
    (lex piece).tokens.map (·.kind) = [t.kind, .eof] ∧
    (lex piece).faults.map (·.cause) = if t.kind.opens then [.unclosedBracket] else [])
    tokens ranges

/-! ## Bytes of prefixes and of middle parts -/

theorem Text.length_encode_le {cs ds : List Char} (h : cs <+: ds) :
    (encode cs).length ≤ (encode ds).length := by
  obtain ⟨rest, rfl⟩ := h
  rw [encode_append, List.length_append]
  exact Nat.le_add_right _ _

/-- An index that belongs to the middle one of three texts finds a byte of it. -/
theorem Text.exists_mem_encode {front text : List Char} {i : Nat}
    (hfirst : (encode front).length ≤ i) (hlast : i < (encode (front ++ text)).length)
    (rest : List Char) :
    ∃ b ∈ encode text, (encode (front ++ text ++ rest))[i]? = some b := by
  have hlast' := hlast
  rw [encode_append, List.length_append] at hlast'
  have hindex : i - (encode front).length < (encode text).length := by omega
  refine ⟨_, List.getElem_mem hindex, ?_⟩
  rw [encode_append, List.getElem?_append_left hlast, encode_append,
    List.getElem?_append_right hfirst, List.getElem?_eq_getElem hindex]

/-! ## Text between tokens -/

/-- What stands between tokens. -/
inductive Gap : List Char → Prop
  | feed : Gap ['\n']
  | spaces {text : List Char} (h : ∀ c ∈ text, Lexeme.isSpace c) : Gap text
  | comment {tail : List Char} (h : ∀ c ∈ tail, c ≠ '\n') : Gap ('#' :: tail)

theorem gap_of_scan {c : Char} {tail rest : List Char}
    (h : Lexeme.scan c (tail ++ rest) = (.blank, tail)) : Gap (c :: tail) := by
  rcases Lexeme.blank_cases h with hspaces | ⟨rfl, hline, -⟩
  · exact .spaces hspaces
  · exact .comment hline

theorem mem_utf8EncodeChar_of_isSpace {c : Char} (h : Lexeme.isSpace c) {b : UInt8}
    (hb : b ∈ String.utf8EncodeChar c) : b ∈ [32, 9, 13] := by
  simp only [Lexeme.isSpace, Bool.or_eq_true, decide_eq_true_eq] at h
  rcases h with (rfl | rfl) | rfl
  · exact List.mem_singleton.mp hb ▸ by decide
  · exact List.mem_singleton.mp hb ▸ by decide
  · exact List.mem_singleton.mp hb ▸ by decide

namespace Lexed

/-- The bytes of a piece. -/
def Piece.range (p : Piece) : ByteRange := ⟨(encode p.before).length, (encode p.through).length⟩

/-- The byte `i` of a text belongs to a token, or to a gap that no token meets. -/
def Covered (before ahead : List Char) (ps : List Piece) (i : Nat) : Prop :=
  (∃ p ∈ ps, p.kind.endsLine = false ∧ i ∈ p.range) ∨
    ∃ front text rest, ahead = front ++ text ++ rest ∧ Gap text ∧
      (encode (before ++ front)).length ≤ i ∧ i < (encode (before ++ front ++ text)).length ∧
      ∀ p ∈ ps, p.kind.endsLine = false →
        p.through <+: before ++ front ∨ before ++ front ++ text <+: p.before

section
variable {before ahead text rest : List Char} {depth : Nat} {last : Option Kind} {p : Piece}
  {ps : List Piece} {i : Nat}

theorem Covered.behind (h : Covered (before ++ text) rest ps i) :
    Covered before (text ++ rest) ps i := by
  refine h.imp_right ?_
  rintro ⟨front, gap, rest, rfl, hgap, hfirst, hlast, hps⟩
  refine ⟨text ++ front, gap, rest, ?_, hgap, ?_⟩
  · simp only [List.append_assoc]
  · rw [← List.append_assoc]
    exact ⟨hfirst, hlast, hps⟩

theorem Covered.cons (hp : p.kind.endsLine = false → p.through <+: before)
    (h : Covered before ahead ps i) : Covered before ahead (p :: ps) i := by
  rcases h with ⟨q, hq, hcovers⟩ | ⟨front, gap, rest, hsplit, hgap, hfirst, hlast, hps⟩
  · exact .inl ⟨q, List.mem_cons_of_mem _ hq, hcovers⟩
  · refine .inr ⟨front, gap, rest, hsplit, hgap, hfirst, hlast, ?_⟩
    rw [List.forall_mem_cons]
    refine ⟨fun hkind => .inl ?_, hps⟩
    exact (hp hkind).trans (List.prefix_append before front)

theorem covered_of_gap (hgap : Gap text) (hps : ∀ p ∈ ps, before ++ text <+: p.before)
    (hfirst : (encode before).length ≤ i)
    (hlater : (encode (before ++ text)).length ≤ i → Covered (before ++ text) rest ps i) :
    Covered before (text ++ rest) ps i := by
  by_cases hi : i < (encode (before ++ text)).length
  · refine .inr ⟨[], text, rest, rfl, hgap, ?_⟩
    rw [List.append_nil]
    exact ⟨hfirst, hi, fun p hp _ => .inr (hps p hp)⟩
  · exact (hlater (Nat.le_of_not_lt hi)).behind

/-- Every byte is covered: step by step, it belongs to the text of the step or to what comes
later. -/
theorem FaultFree.covered (h : FaultFree before depth last ahead ps)
    (hfirst : (encode before).length ≤ i) (hlast : i < (encode (before ++ ahead)).length) :
    Covered before ahead ps i := by
  induction h with
  | done =>
    rw [List.append_nil] at hlast
    omega
  | blank hscan hrest ih =>
    refine covered_of_gap (gap_of_scan hscan) (fun _ hp => hrest.isPrefix hp) hfirst fun hi => ?_
    exact ih hi (by rwa [List.append_assoc])
  | join _ hrest ih =>
    refine covered_of_gap .feed (fun _ hp => hrest.isPrefix hp) hfirst fun hi => ?_
    exact ih hi (by rwa [List.append_assoc])
  | lineEnd _ hrest ih =>
    refine Covered.cons nofun ?_
    refine covered_of_gap .feed (fun _ hp => hrest.isPrefix hp) hfirst fun hi => ?_
    exact ih hi (by rwa [List.append_assoc])
  | @token before tail rest _ _ c k ps hscan hrest ih =>
    by_cases hi : i < (encode (before ++ c :: tail)).length
    · exact .inl ⟨_, List.mem_cons_self, Lexeme.not_endsLine_of_scan hscan, hfirst, hi⟩
    · have hlater : Covered (before ++ c :: tail) rest (⟨before, c :: tail, k⟩ :: ps) i :=
        (ih (Nat.le_of_not_lt hi) (by rwa [List.append_assoc])).cons fun _ => List.prefix_rfl
      exact hlater.behind

end

/-! ## Single tokens -/

section
variable {cs : List Char} {p : Piece}

theorem Piece.FoundIn.token_of_ne (h : p.FoundIn [] cs) (hkind : p.kind.endsLine = false) :
    ∃ c tail rest, p.text = c :: tail ∧ cs = p.before ++ p.text ++ rest ∧
      Lexeme.scan c (tail ++ rest) = (.token p.kind none, tail) := by
  obtain ⟨front, rest, hbefore, hsplit, hfound⟩ := h
  rw [List.nil_append] at hbefore
  subst hbefore
  cases hfound with
  | lineEnd hnewline =>
    rw [hnewline] at hkind
    cases hkind
  | token htext hscan => exact ⟨_, _, rest, htext, hsplit, hscan⟩

/-- The place of a token leads back to its bytes. -/
theorem Piece.FoundIn.range?_span (h : p.FoundIn [] cs) (hkind : p.kind.endsLine = false) :
    p.token.span.range? (lineStarts (encode cs)) = some p.range := by
  obtain ⟨c, tail, rest, htext, rfl, hscan⟩ := h.token_of_ne hkind
  obtain ⟨d, hlast, hd⟩ := Lexeme.getLast?_of_scan hscan
  rw [← htext] at hlast
  exact Span.range?_between p.before hlast hd rest

theorem Piece.FoundIn.start_lt_stop {before : List Char} (h : p.FoundIn before cs) :
    p.range.start < p.range.stop := by
  obtain ⟨c, tail, htext⟩ : ∃ c tail, p.text = c :: tail := by
    obtain ⟨_, _, _, _, hfound⟩ := h
    cases hfound with
    | lineEnd _ htext | token htext => exact ⟨_, _, htext⟩
  simp only [range, through, htext, Text.encode_append, Text.encode_cons, List.length_append,
    String.length_utf8EncodeChar]
  have := c.utf8Size_pos
  omega

theorem Piece.FoundIn.stop_le (h : p.FoundIn [] cs) : p.range.stop ≤ (encode cs).length := by
  obtain ⟨front, rest, hbefore, rfl, -⟩ := h
  rw [List.nil_append] at hbefore
  subst hbefore
  exact Text.length_encode_le (List.prefix_append _ _)

/-- The bytes of a range are those of its piece. -/
theorem Piece.FoundIn.drop_take_range (h : p.FoundIn [] cs) :
    ((encode cs).take p.range.stop).drop p.range.start = encode p.text := by
  obtain ⟨front, rest, hbefore, rfl, -⟩ := h
  rw [List.nil_append] at hbefore
  subst hbefore
  simp only [range, through]
  rw [Text.encode_append (p.before ++ p.text), List.take_left, Text.encode_append, List.drop_left]

/-- A token is read alone as it is read in its text. -/
theorem lex_alone {c : Char} {tail rest : List Char} {k : Kind}
    (h : Lexeme.scan c (tail ++ rest) = (.token k none, tail)) :
    (lex (String.ofList (c :: tail))).tokens.map (·.kind) = [k, .eof] ∧
      (lex (String.ofList (c :: tail))).faults.map (·.cause) =
        if k.opens then [.unclosedBracket] else [] := by
  have hscan := Lexeme.scan_of_follows h Lexeme.follows_nil
  rw [List.append_nil] at hscan
  have hall : Lexeme.all (c :: tail) = [⟨c :: tail, .token k none⟩] := by
    rw [Lexeme.all_cons, hscan, List.drop_length, Lexeme.all]
  rw [lex, String.toList_ofList, hall]
  have hbudget : Diagnostics.limit ≠ 0 := by decide
  by_cases hopens : k.opens
  · have hdepth : k.depthAfter 0 = 1 := if_pos hopens
    simp [layout, cons, report, atEnd, hbudget, hdepth, hopens]
  · have hdepth : k.depthAfter 0 = 0 := by simp [Kind.depthAfter, hopens]
    simp [layout, cons, report, atEnd, hbudget, hdepth, hopens]

end

end Lexed

/-! ## All tokens -/

section
variable {front text rest : List Char} {ranges : List ByteRange} {i : Nat}

/-- A comment that no range meets. -/
theorem inComment_of_comment {tail : List Char} (hline : ∀ c ∈ tail, c ≠ '\n')
    (hfirst : (encode front).length ≤ i) (hlast : i < (encode (front ++ '#' :: tail)).length)
    (hapart : ∀ r ∈ ranges, (encode front).length ∉ r) :
    InComment (encode (front ++ '#' :: tail ++ rest)) ranges i := by
  refine ⟨(encode front).length, hfirst, ?_, hapart, ?_⟩
  · rw [List.append_assoc, Text.encode_append, List.getElem?_append_right (Nat.le_refl _),
      Nat.sub_self]
    rfl
  · intro m hm hmi
    obtain ⟨b, hb, hbyte⟩ := Text.exists_mem_encode hm (Nat.lt_of_le_of_lt hmi hlast) rest
    refine ⟨b, hbyte, ?_⟩
    rintro rfl
    obtain ⟨c, hc, hfeed⟩ := List.mem_flatMap.mp hb
    refine Text.feed_notMem_utf8EncodeChar ?_ hfeed
    rcases List.mem_cons.mp hc with rfl | hc
    · decide
    · exact hline c hc

theorem Gap.blank_or_inComment (hgap : Gap text) (hfirst : (encode front).length ≤ i)
    (hlast : i < (encode (front ++ text)).length) (hapart : ∀ r ∈ ranges, (encode front).length ∉ r)
    {b : UInt8} (hb : (encode (front ++ text ++ rest))[i]? = some b) :
    b ∈ [32, 9, 13, 10] ∨ InComment (encode (front ++ text ++ rest)) ranges i := by
  obtain ⟨b', hmem, hb'⟩ := Text.exists_mem_encode hfirst hlast rest
  obtain rfl : b' = b := Option.some.inj (hb'.symm.trans hb)
  cases hgap with
  | feed => exact .inl (List.mem_singleton.mp hmem ▸ by decide)
  | spaces hspaces =>
    obtain ⟨c, hc, hmem⟩ := List.mem_flatMap.mp hmem
    have hblank := mem_utf8EncodeChar_of_isSpace (hspaces c hc) hmem
    exact .inl (List.mem_append_left [10] hblank)
  | comment hline => exact .inr (inComment_of_comment hline hfirst hlast hapart)

end

namespace Lexed

/-- The pieces of written tokens. -/
def written (ps : List Piece) : List Piece := ps.filter (!·.kind.endsLine)

section
variable {cs : List Char} {ps : List Piece}

theorem mem_written {p : Piece} : p ∈ written ps ↔ p ∈ ps ∧ p.kind.endsLine = false := by
  simp [written]

theorem forall_range_written {P : ByteRange → Prop} :
    (∀ r ∈ (written ps).map (·.range), P r) ↔
      ∀ p ∈ ps, p.kind.endsLine = false → P p.range := by
  rw [List.forall_mem_map]
  simp [mem_written]

theorem range?_of_mem_written (h : FaultFree [] 0 none cs ps) {p : Piece} (hp : p ∈ written ps) :
    p.token.span.range? (lineStarts (encode cs)) = some p.range := by
  obtain ⟨hp, hkind⟩ := mem_written.mp hp
  exact (h.found hp).range?_span hkind

/-- The start of a text that a piece stands apart from is outside of the piece. -/
theorem Piece.notMem_range {front text : List Char} {p : Piece}
    (htext : (encode front).length < (encode (front ++ text)).length)
    (hapart : p.through <+: front ∨ front ++ text <+: p.before) :
    (encode front).length ∉ p.range := by
  rintro ⟨hstart, hstop⟩
  rcases hapart with hbehind | hahead
  · exact Nat.not_lt.mpr (Text.length_encode_le hbehind) hstop
  · exact Nat.not_lt.mpr hstart (Nat.lt_of_lt_of_le htext (Text.length_encode_le hahead))

theorem FaultFree.blank_or_inComment (h : FaultFree [] 0 none cs ps) {i : Nat} {b : UInt8}
    (hb : (encode cs)[i]? = some b) (hout : ∀ r ∈ (written ps).map (·.range), i ∉ r) :
    b ∈ [32, 9, 13, 10] ∨ InComment (encode cs) ((written ps).map (·.range)) i := by
  have hi : i < (encode cs).length := (List.getElem?_eq_some_iff.mp hb).1
  rcases h.covered (Nat.zero_le i) hi with ⟨p, hp, hkind, hin⟩ |
    ⟨front, gap, rest, rfl, hgap, hfirst, hlast, hapart⟩
  · exact absurd hin (forall_range_written.mp hout p hp hkind)
  · refine hgap.blank_or_inComment hfirst hlast ?_ hb
    rw [forall_range_written]
    intro p hp hkind
    exact p.notMem_range (Nat.lt_of_le_of_lt hfirst hlast) (hapart p hp hkind)

end

end Lexed

open Lexed (Piece FaultFree written)

section
variable {text : String} {ps : List Piece}

theorem writtenTokens_eq (htokens : (lex text).tokens = Lexed.tokensOf ps text.toList) :
    writtenTokens text = (written ps).map (·.token) := by
  rw [writtenTokens, htokens, Lexed.tokensOf, List.filter_append, List.filter_map, written]
  exact List.append_nil _

theorem tokenRanges_eq (h : FaultFree [] 0 none text.toList ps)
    (htokens : (lex text).tokens = Lexed.tokensOf ps text.toList) :
    tokenRanges text = (written ps).map (·.range) := by
  rw [tokenRanges, writtenTokens_eq htokens, Text.bytes_eq_encode, List.filterMap_map]
  calc (written ps).filterMap ((·.span.range? (lineStarts (encode text.toList))) ∘ (·.token))
    _ = (written ps).filterMap (some ∘ (·.range)) :=
      List.filterMap_congr fun _ hp => Lexed.range?_of_mem_written h hp
    _ = (written ps).map (·.range) := by rw [List.filterMap_eq_map]

end

/-- The tokens of a text without faults tile it. -/
theorem tiles_of_lex {text : String} (h : (lex text).faults = []) :
    Tiles text (writtenTokens text) (tokenRanges text) := by
  obtain ⟨ps, hps, htokens⟩ := exists_faultFree h
  rw [tokenRanges_eq hps htokens, writtenTokens_eq htokens]
  constructor
  case placed =>
    rw [List.map_map, List.map_map, Text.bytes_eq_encode]
    exact List.map_congr_left fun _ hp => Lexed.range?_of_mem_written hps hp
  case nonempty =>
    rw [Lexed.forall_range_written, Text.bytes_eq_encode]
    exact fun p hp _ => ⟨(hps.found hp).start_lt_stop, (hps.found hp).stop_le⟩
  case ordered =>
    refine List.pairwise_map.mpr ((hps.pairwise.filter _).imp ?_)
    exact fun hpassed => Text.length_encode_le hpassed
  case gaps =>
    rw [Text.bytes_eq_encode]
    exact fun i b => hps.blank_or_inComment
  case alone =>
    rw [Text.bytes_eq_encode, List.forall₂_map_left_iff, List.forall₂_map_right_iff,
      List.forall₂_same]
    intro p hp
    obtain ⟨hp, hkind⟩ := Lexed.mem_written.mp hp
    obtain ⟨c, tail, rest, htext, -, hscan⟩ := (hps.found hp).token_of_ne hkind
    refine ⟨String.ofList p.text, ?_, ?_⟩
    · rw [Text.bytes_eq_encode, String.toList_ofList, (hps.found hp).drop_take_range]
    · rw [htext]
      exact Lexed.lex_alone hscan

theorem tiles_of_call_line :
    (lex "fn f(\"é\") # a\n").faults = [] ∧
      tokenRanges "fn f(\"é\") # a\n" = [⟨0, 2⟩, ⟨3, 4⟩, ⟨4, 5⟩, ⟨5, 9⟩, ⟨9, 10⟩] ∧
      Tiles "fn f(\"é\") # a\n" (writtenTokens "fn f(\"é\") # a\n")
        (tokenRanges "fn f(\"é\") # a\n") := by
  have hclean : (lex "fn f(\"é\") # a\n").faults = [] := by decide +kernel
  exact ⟨hclean, by decide +kernel, tiles_of_lex hclean⟩

end NativeInterface
