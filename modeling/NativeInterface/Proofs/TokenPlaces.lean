import NativeInterface.Token.Lexer

/-!
# Where tokens stand

The lexemes of a file cover its text. So a position that the tokens and faults of a file are given
is a place of one of its lines, and tokens stand one behind the other.
-/

namespace NativeInterface

/-! ## Positions -/

namespace Span

def first (s : Span) : Nat × Nat := (s.startLine, s.startColumn)

def last (s : Span) : Nat × Nat := (s.endLine, s.endColumn)

theorem before_iff {a b : Nat × Nat} : before a b ↔ a.1 < b.1 ∨ a.1 = b.1 ∧ a.2 ≤ b.2 := by
  simp [before]

theorem before_refl (a : Nat × Nat) : before a a := by
  simp [before_iff]

theorem before_trans {a b c : Nat × Nat} (hab : before a b) (hbc : before b c) : before a c := by
  rw [before_iff] at *
  omega

end Span

namespace Position
open NativeInterface.Span (before before_iff before_trans before_refl)

/-- The position as a pair of its line and its column. -/
def pair (p : Position) : Nat × Nat := (p.line, p.column)

/-- The last place of a span that ends before the position. -/
def lastBefore (p : Position) : Nat × Nat := (p.line, max (p.column - 1) 1)

theorem after_append (p : Position) (cs ds : List Char) :
    p.after (cs ++ ds) = (p.after cs).after ds :=
  List.foldl_append

theorem before_next (p : Position) (c : Char) : before p.pair (p.next c).pair := by
  rw [before_iff]
  unfold next pair
  split
  · exact .inl (Nat.lt_succ_self _)
  · exact .inr ⟨rfl, Nat.le_add_right ..⟩

theorem before_after (p : Position) (cs : List Char) : before p.pair (p.after cs).pair := by
  induction cs generalizing p with
  | nil => exact before_refl _
  | cons c cs ih => exact before_trans (before_next p c) (ih (p.next c))

theorem before_after_append (cs ds : List Char) :
    before (start.after cs).pair (start.after (cs ++ ds)).pair := by
  rw [after_append]
  exact before_after _ ds

theorem column_next {p : Position} (h : 1 ≤ p.column) (c : Char) : 1 ≤ (p.next c).column := by
  unfold next
  split
  · exact Nat.le_refl 1
  · exact Nat.le_add_right_of_le h

theorem column_after {p : Position} (h : 1 ≤ p.column) (cs : List Char) :
    1 ≤ (p.after cs).column := by
  induction cs generalizing p with
  | nil => exact h
  | cons c cs ih => exact ih (column_next h c)

theorem lastBefore_mono {p q : Position} (h : before p.pair q.pair) :
    before p.lastBefore q.lastBefore := by
  rw [before_iff] at *
  unfold lastBefore
  unfold pair at h
  dsimp only at *
  omega

theorem lastBefore_before {p : Position} (h : 1 ≤ p.column) : before p.lastBefore p.pair := by
  rw [before_iff]
  unfold lastBefore pair
  dsimp only
  omega

/-- A text that is not empty has a last place, which is not in front of its first. -/
theorem before_lastBefore_after {p : Position} (h : 1 ≤ p.column) {cs : List Char} (hcs : cs ≠ []) :
    before p.pair (p.after cs).lastBefore := by
  obtain ⟨c, cs, rfl⟩ := List.exists_cons_of_ne_nil hcs
  refine before_trans ?_ (lastBefore_mono (before_after (p.next c) cs))
  rw [before_iff]
  unfold next pair lastBefore
  have := c.utf8Size_pos
  split
  · exact .inl (Nat.lt_succ_self _)
  · dsimp only
    omega

end Position

/-! ## Lines -/

namespace SourceFile

/-- The place is on a line of the file, or right behind one. -/
def Holds (f : SourceFile) (line column : Nat) : Prop :=
  1 ≤ line ∧ ∃ raw, f.rawLines[line - 1]? = some raw ∧
    1 ≤ column ∧ column ≤ (String.ofList raw).utf8ByteSize + 1

end SourceFile

theorem utf8ByteSize_cons (c : Char) (cs : List Char) :
    (String.ofList (c :: cs)).utf8ByteSize = c.utf8Size + (String.ofList cs).utf8ByteSize := by
  rw [String.ofList_cons, String.utf8ByteSize_append, String.utf8ByteSize_singleton]

/-- The position behind a part of a text, counted from any place, is on the line of the text that
the line feeds so far lead to. -/
theorem Position.exists_line (p : Position) (hp : 1 ≤ p.column) (pre post : List Char) :
    ∃ n raw, (p.after pre).line = p.line + n ∧
      (Text.splitOn '\n' (pre ++ post))[n]? = some raw ∧ 1 ≤ (p.after pre).column ∧
      (p.after pre).column ≤
        (if n = 0 then p.column else 1) + (String.ofList raw).utf8ByteSize := by
  induction pre generalizing p with
  | nil =>
    obtain ⟨raw, rest, hsplit⟩ := List.exists_cons_of_ne_nil (Text.splitOn_ne_nil '\n' post)
    refine ⟨0, raw, rfl, by rw [List.nil_append, hsplit]; rfl, hp, Nat.le_add_right ..⟩
  | cons c pre ih =>
    obtain ⟨n, raw, hline, hraw, hpos, hcolumn⟩ := ih (p.next c) (column_next hp c)
    rw [show p.after (c :: pre) = (p.next c).after pre from rfl, List.cons_append]
    by_cases hfeed : c = '\n'
    · have hnext : p.next c = ⟨p.line + 1, 1⟩ := if_pos hfeed
      have hsplit : Text.splitOn '\n' (c :: (pre ++ post)) =
          [] :: Text.splitOn '\n' (pre ++ post) := by
        rw [Text.splitOn, if_pos hfeed]
      rw [hnext] at hline hcolumn hpos ⊢
      rw [hsplit]
      refine ⟨n + 1, raw, by dsimp only at hline; omega, hraw, hpos, ?_⟩
      rw [if_neg n.succ_ne_zero]
      simpa using hcolumn
    · have hnext : p.next c = ⟨p.line, p.column + c.utf8Size⟩ := if_neg hfeed
      obtain ⟨w, ws, hws⟩ := List.exists_cons_of_ne_nil (Text.splitOn_ne_nil '\n' (pre ++ post))
      have hsplit : Text.splitOn '\n' (c :: (pre ++ post)) = (c :: w) :: ws := by
        rw [Text.splitOn, if_neg hfeed, hws]
      rw [hws] at hraw
      rw [hnext] at hline hcolumn hpos ⊢
      rw [hsplit]
      cases n with
      | zero =>
        cases hraw
        refine ⟨0, c :: raw, hline, rfl, hpos, ?_⟩
        rw [utf8ByteSize_cons]
        rw [if_pos rfl] at hcolumn ⊢
        dsimp only at hcolumn
        omega
      | succ n => exact ⟨n + 1, raw, hline, hraw, hpos, hcolumn⟩

namespace SourceFile
variable {f : SourceFile}

theorem holds_after {pre post : List Char} (h : f.text.toList = pre ++ post) :
    f.Holds (Position.start.after pre).line (Position.start.after pre).column := by
  obtain ⟨n, raw, hline, hraw, hpos, hcolumn⟩ :=
    Position.exists_line Position.start (Nat.le_refl 1) pre post
  have hone : (if n = 0 then Position.start.column else 1) = 1 := ite_self 1
  rw [hone] at hcolumn
  rw [hline]
  refine ⟨Nat.le_add_right .., raw, ?_, hpos, by omega⟩
  rw [show Position.start.line + n - 1 = n from Nat.add_sub_cancel_left 1 n, rawLines, h]
  exact hraw

theorem Holds.mono {line column column' : Nat} (h : f.Holds line column') (hpos : 1 ≤ column)
    (hle : column ≤ column') : f.Holds line column := by
  obtain ⟨hline, raw, hraw, -, hcolumn⟩ := h
  exact ⟨hline, raw, hraw, hpos, Nat.le_trans hle hcolumn⟩

end SourceFile

/-- The span starts at a place of the file and does not end before it starts. -/
structure Span.PointsInto (s : Span) (f : SourceFile) : Prop where
  holds : f.Holds s.startLine s.startColumn
  ordered : before s.first s.last

namespace Span
variable {f : SourceFile}

theorem pointsInto_point {line column : Nat} (h : f.Holds line column) :
    (point line column).PointsInto f :=
  ⟨h, before_refl _⟩

theorem pointsInto_between {pre text post : List Char} (h : f.text.toList = pre ++ text ++ post)
    (htext : text ≠ []) :
    (between (Position.start.after pre) (Position.start.after (pre ++ text))).PointsInto f := by
  refine ⟨SourceFile.holds_after (h.trans (List.append_assoc ..)), ?_⟩
  rw [Position.after_append]
  exact Position.before_lastBefore_after (Position.column_after (Nat.le_refl 1) pre) htext

end Span

/-! ## Lexemes -/

namespace Lexeme

theorem nameTail_isPrefix (cs : List Char) : nameTail cs <+: cs := by
  have hmark : (cs.dropWhile isWord).head?.toList.filter (fun c => c = '?' || c = '!') <+:
      cs.dropWhile isWord := by
    cases cs.dropWhile isWord with
    | nil => exact List.nil_prefix
    | cons c rest =>
      rw [List.head?_cons, Option.toList_some, List.filter_cons]
      split
      · exact List.cons_prefix_cons.mpr ⟨rfl, List.nil_prefix⟩
      · exact List.nil_prefix
  calc nameTail cs <+: cs.takeWhile isWord ++ cs.dropWhile isWord :=
        (List.prefix_append_right_inj _).mpr hmark
    _ = cs := List.takeWhile_append_dropWhile

theorem literal_isPrefix (cs : List Char) : (literal cs).text <+: cs := by
  fun_induction literal cs with
  | case1 | case2 => exact List.prefix_rfl
  | case3 c cs tail ih => exact List.cons_prefix_cons.mpr ⟨rfl, List.cons_prefix_cons.mpr ⟨rfl, ih⟩⟩
  | case4 => exact List.nil_prefix
  | case5 => exact List.cons_prefix_cons.mpr ⟨rfl, List.nil_prefix⟩
  | case6 c cs _ _ _ _ tail ih => exact List.cons_prefix_cons.mpr ⟨rfl, ih⟩

theorem nameOrKey_isPrefix (c : Char) (cs : List Char) : (nameOrKey c cs).2 <+: cs := by
  have hcs := List.prefix_iff_eq_append.mp (nameTail_isPrefix cs)
  unfold nameOrKey
  dsimp only
  split
  · rename_i rest hdrop
    rw [hdrop] at hcs
    split
    · exact nameTail_isPrefix cs
    · exact ⟨rest, (List.append_assoc ..).trans hcs⟩
  · exact nameTail_isPrefix cs

theorem colon_isPrefix (cs : List Char) : (colon cs).2 <+: cs := by
  unfold colon
  split
  · rename_i c rest
    split
    · rename_i hcolon
      exact List.cons_prefix_cons.mpr ⟨hcolon.symm, List.nil_prefix⟩
    · split
      · exact List.cons_prefix_cons.mpr ⟨rfl, nameTail_isPrefix rest⟩
      · exact List.nil_prefix
  · exact List.nil_prefix

theorem scan_isPrefix (c : Char) (cs : List Char) : (scan c cs).2 <+: cs := by
  fun_cases scan c cs with
  | case1 | case2 | case5 | case6 => exact List.takeWhile_prefix _
  | case3 | case9 | case10 => exact List.nil_prefix
  | case4 => exact nameOrKey_isPrefix c cs
  | case7 => exact literal_isPrefix cs
  | case8 => exact colon_isPrefix cs

/-- Lexemes leave nothing of the text out. -/
theorem flatMap_text_all (cs : List Char) : (all cs).flatMap (·.text) = cs := by
  fun_induction all cs with
  | case1 => rfl
  | case2 c cs found ih =>
    have hcs := List.prefix_iff_eq_append.mp (scan_isPrefix c cs)
    rw [List.flatMap_cons, ih]
    exact congrArg (c :: ·) hcs

theorem nameOrKey_ne_stray (c d : Char) (cs : List Char) : (nameOrKey c cs).1 ≠ .stray d := by
  unfold nameOrKey
  dsimp only
  split
  · split <;> nofun
  · nofun

theorem integer_ne_stray (d : Char) (cs : List Char) : integer cs ≠ .stray d := by
  unfold integer
  dsimp only
  split
  · split <;> nofun
  · nofun

theorem colon_ne_stray (d : Char) (cs : List Char) : (colon cs).1 ≠ .stray d := by
  unfold colon
  split
  · split
    · nofun
    · split <;> nofun
  · nofun

theorem scan_stray {c d : Char} {cs : List Char} (h : (scan c cs).1 = .stray d) :
    c = d ∧ (scan c cs).2 = [] ∧ c ≠ '\n' := by
  revert h
  fun_cases scan c cs with
  | case1 | case2 | case3 | case5 | case7 | case9 =>
    intro h
    cases h
  | case4 => exact fun h => absurd h (nameOrKey_ne_stray c d cs)
  | case6 => exact fun h => absurd h (integer_ne_stray d _)
  | case8 => exact fun h => absurd h (colon_ne_stray d cs)
  | case10 _ _ hfeed =>
    intro h
    cases h
    exact ⟨rfl, rfl, hfeed⟩

/-- What is known of a lexeme: it has a text, and one that belongs to nothing is a single character
on a line. -/
structure WellCut (l : Lexeme) : Prop where
  text : l.text ≠ []
  stray : ∀ c, l.reading = .stray c → l.text = [c] ∧ c ≠ '\n'

theorem wellCut_of_mem {cs : List Char} {l : Lexeme} (h : l ∈ all cs) : l.WellCut := by
  fun_induction all cs with
  | case1 => cases h
  | case2 c cs found ih =>
    rcases List.mem_cons.mp h with rfl | h
    · refine ⟨List.cons_ne_nil _ _, fun d hd => ?_⟩
      obtain ⟨rfl, htail, hfeed⟩ := scan_stray hd
      exact ⟨congrArg (c :: ·) htail, hfeed⟩
    · exact ih h

end Lexeme

/-! ## Layout -/

namespace Lexed
variable {f : SourceFile}

theorem pointsInto_strayFaults {pre post : List Char} {c : Char} (hc : c ≠ '\n')
    (h : f.text.toList = pre ++ [c] ++ post) :
    ∀ x ∈ strayFaults (Position.start.after pre) c, x.span.PointsInto f := by
  intro x hx
  obtain ⟨i, hi, rfl⟩ := List.mem_mapIdx.mp hx
  have hbehind := SourceFile.holds_after h
  rw [Position.after_append] at hbehind
  have hnext : (Position.start.after pre).after [c] =
      ⟨(Position.start.after pre).line, (Position.start.after pre).column + c.utf8Size⟩ :=
    if_neg hc
  rw [hnext] at hbehind
  have hpos : 1 ≤ (Position.start.after pre).column := Position.column_after (Nat.le_refl 1) pre
  rw [String.length_utf8EncodeChar] at hi
  exact Span.pointsInto_point (hbehind.mono (Nat.le_add_right_of_le hpos)
    (Nat.add_le_add_left (Nat.le_of_lt hi) _))

theorem text_cons {l : Lexeme} {ls : List Lexeme} {pre : List Char}
    (h : f.text.toList = pre ++ (l :: ls).flatMap (·.text)) :
    f.text.toList = pre ++ l.text ++ ls.flatMap (·.text) := by
  rw [h, List.flatMap_cons, List.append_assoc]

theorem length_strayFaults (p : Position) (c : Char) : (strayFaults p c).length = c.utf8Size := by
  rw [strayFaults, List.length_mapIdx, String.length_utf8EncodeChar]

/-- A fault of a file points into it. Once the limit of faults is reached positions no longer count,
since nothing is reported any more. -/
theorem pointsInto_of_mem_faults {ls : List Lexeme} {s : State} {pre : List Char}
    (hls : ∀ l ∈ ls, l.WellCut) (htext : f.text.toList = pre ++ ls.flatMap (·.text))
    (hpos : s.budget ≠ 0 → s.position = Position.start.after pre) :
    ∀ x ∈ (layout ls s).faults, x.span.PointsInto f := by
  induction ls generalizing s pre with
  | nil =>
    rw [layout]
    split
    · nofun
    · rename_i hreport
      rw [hpos fun h => hreport (.inl h)]
      intro x hx
      rw [List.mem_singleton.mp hx]
      exact Span.pointsInto_point (SourceFile.holds_after htext)
  | cons l ls ih =>
    rw [List.forall_mem_cons] at hls
    rw [layout]
    split
    · nofun
    rename_i hbudget
    have hstop : s.position.after l.text = Position.start.after (pre ++ l.text) := by
      rw [hpos hbudget, Position.after_append]
    have hspan := Span.pointsInto_between (text_cons htext) hls.1.text
    have hrest {t : State} (ht : t.budget ≠ 0 → t.position = s.position.after l.text) :
        ∀ x ∈ (layout ls t).faults, x.span.PointsInto f :=
      ih hls.2 (text_cons htext) fun hb => (ht hb).trans hstop
    rw [← hpos hbudget, ← hstop] at hspan
    dsimp only
    split
    · exact hrest fun _ => rfl
    · split
      · exact hrest fun _ => rfl
      · exact hrest fun _ => rfl
    · rename_i kind fault hl
      refine List.forall_mem_append.mpr ⟨?_, hrest fun _ => rfl⟩
      intro x hx
      obtain ⟨cause, -, rfl⟩ := List.mem_map.mp hx
      exact hspan
    · exact List.forall_mem_cons.mpr ⟨hspan, hrest fun _ => rfl⟩
    · rename_i c hl
      obtain ⟨hc, hfeed⟩ := hls.1.stray c hl
      refine List.forall_mem_append.mpr ⟨?_, hrest fun hb => ?_⟩
      · intro x hx
        have hx := List.mem_of_mem_take hx
        rw [hpos hbudget] at hx
        exact pointsInto_strayFaults hfeed (hc ▸ text_cons htext) x hx
      · have hleft : s.budget - (List.take s.budget (strayFaults s.position c)).length ≠ 0 := hb
        have hall : (List.take s.budget (strayFaults s.position c)).length = c.utf8Size := by
          rw [List.length_take, length_strayFaults] at hleft ⊢
          omega
        rw [hall, hc]
        exact (if_neg hfeed).symm

end Lexed

/-- The tokens stand in the text `post`, which has the text `pre` in front of it, one behind the
other, and the last is the end of the file. -/
inductive StandIn : List Char → List Char → List Token → Prop
  | eof {pre : List Char} : StandIn pre [] (Lexed.atEnd (Position.start.after pre)).tokens
  | blank {pre text post : List Char} {ts : List Token} :
    StandIn (pre ++ text) post ts → StandIn pre (text ++ post) ts
  | token {pre text post : List Char} {kind : Token.Kind} {ts : List Token} : text ≠ [] →
    StandIn (pre ++ text) post ts → StandIn pre (text ++ post)
      (⟨kind, .between (Position.start.after pre) (Position.start.after (pre ++ text))⟩ :: ts)

namespace Lexed

theorem standIn_layout {ls : List Lexeme} {s : State} {pre : List Char}
    (hls : ∀ l ∈ ls, l.WellCut) (hbudget : s.budget ≠ 0)
    (hpos : s.position = Position.start.after pre) (hclean : (layout ls s).faults = []) :
    StandIn pre (ls.flatMap (·.text)) (layout ls s).tokens := by
  induction ls generalizing s pre with
  | nil =>
    rw [layout, hpos] at *
    split
    · exact .eof
    · exact .eof
  | cons l ls ih =>
    rw [List.forall_mem_cons] at hls
    have hstop : s.position.after l.text = Position.start.after (pre ++ l.text) := by
      rw [hpos, Position.after_append]
    have hrest {t : State} (ht : t.position = s.position.after l.text) (hb : t.budget ≠ 0)
        (hc : (layout ls t).faults = []) :
        StandIn (pre ++ l.text) (ls.flatMap (·.text)) (layout ls t).tokens :=
      ih hls.2 hb (ht.trans hstop) hc
    have htoken {kind : Token.Kind} {t : State} (ht : t.position = s.position.after l.text)
        (hb : t.budget ≠ 0) (hc : (layout ls t).faults = []) :
        StandIn pre (l.text ++ ls.flatMap (·.text))
          (⟨kind, .between s.position (s.position.after l.text)⟩ :: (layout ls t).tokens) := by
      rw [hstop, hpos]
      exact .token hls.1.text (hrest ht hb hc)
    rw [layout, if_neg hbudget] at hclean ⊢
    rw [List.flatMap_cons]
    dsimp only at hclean ⊢
    split at hclean
    · exact .blank (hrest rfl hbudget hclean)
    · split at hclean
      · rename_i hjoins
        rw [if_pos hjoins]
        exact .blank (hrest rfl hbudget hclean)
      · rename_i hjoins
        rw [if_neg hjoins]
        exact htoken rfl hbudget hclean
    · obtain ⟨hfound, hclean⟩ := List.append_eq_nil_iff.mp hclean
      rw [hfound] at hclean ⊢
      exact htoken rfl hbudget hclean
    · cases hclean
    · rename_i c hl
      have hfound := congrArg List.length (List.append_eq_nil_iff.mp hclean).1
      have hsize := c.utf8Size_pos
      rw [List.length_take, length_strayFaults, List.length_nil] at hfound
      omega

end Lexed

/-! ## Order -/

/-- The token `u` starts and ends no earlier than the token `t`. -/
def Token.Follows (t u : Token) : Prop :=
  Span.before t.span.first u.span.first ∧ Span.before t.span.last u.span.last

namespace StandIn
variable {pre post : List Char} {ts : List Token}

theorem before_first (h : StandIn pre post ts) {t : Token} (ht : t ∈ ts) :
    Span.before (Position.start.after pre).pair t.span.first ∧
      Span.before (Position.start.after pre).lastBefore t.span.last := by
  induction h with
  | eof =>
    rw [List.mem_singleton.mp ht]
    exact ⟨Span.before_refl _, Position.lastBefore_before (Position.column_after (Nat.le_refl 1) _)⟩
  | @blank pre text _ _ _ ih =>
    have hmove := Position.before_after_append pre text
    obtain ⟨hfirst, hlast⟩ := ih ht
    exact ⟨Span.before_trans hmove hfirst,
      Span.before_trans (Position.lastBefore_mono hmove) hlast⟩
  | @token pre text _ kind _ _ _ ih =>
    have hmove := Position.before_after_append pre text
    rcases List.mem_cons.mp ht with rfl | ht
    · exact ⟨Span.before_refl _, Position.lastBefore_mono hmove⟩
    · obtain ⟨hfirst, hlast⟩ := ih ht
      exact ⟨Span.before_trans hmove hfirst,
        Span.before_trans (Position.lastBefore_mono hmove) hlast⟩

theorem pairwise_follows (h : StandIn pre post ts) : ts.Pairwise Token.Follows := by
  induction h with
  | eof => exact List.pairwise_singleton ..
  | blank _ ih => exact ih
  | @token pre text _ kind _ _ hrest ih =>
    refine List.pairwise_cons.mpr ⟨fun u hu => ?_, ih⟩
    obtain ⟨hfirst, hlast⟩ := hrest.before_first hu
    exact ⟨Span.before_trans (Position.before_after_append pre text) hfirst, hlast⟩

theorem pointsInto {f : SourceFile} (h : StandIn pre post ts)
    (htext : f.text.toList = pre ++ post) {t : Token} (ht : t ∈ ts) : t.span.PointsInto f := by
  induction h with
  | eof =>
    rw [List.mem_singleton.mp ht]
    exact Span.pointsInto_point (SourceFile.holds_after htext)
  | blank _ ih => exact ih (htext.trans (List.append_assoc ..).symm) ht
  | token htoken _ ih =>
    have htext := htext.trans (List.append_assoc ..).symm
    rcases List.mem_cons.mp ht with rfl | ht
    · exact Span.pointsInto_between htext htoken
    · exact ih htext ht

end StandIn

/-- The tokens of a file without faults in its characters stand in its text. -/
theorem standIn_lex {text : String} (h : (lex text).faults = []) :
    StandIn [] text.toList (lex text).tokens := by
  have hstart : Position.start = Position.start.after [] := rfl
  have hstand := Lexed.standIn_layout (fun _ => Lexeme.wellCut_of_mem) (by decide) hstart h
  rw [Lexeme.flatMap_text_all] at hstand
  exact hstand

/-- The faults in the characters of a file point into it. -/
theorem SourceFile.pointsInto_of_mem_lex (f : SourceFile) :
    ∀ x ∈ (lex f.text).faults, x.span.PointsInto f := by
  have htext : f.text.toList = [] ++ (Lexeme.all f.text.toList).flatMap (·.text) := by
    rw [Lexeme.flatMap_text_all, List.nil_append]
  exact Lexed.pointsInto_of_mem_faults (fun _ => Lexeme.wellCut_of_mem) htext fun _ => rfl

end NativeInterface
