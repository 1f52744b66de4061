import NativeInterface.Proofs.LineEnds

/-!
# Free layout

Blanks may stand between any two tokens, and empty lines and comments wherever a line feed ends no
declaration: put there, they change neither the tokens nor that the text is without faults
(`readsAs_of_insert`).
-/

namespace NativeInterface
open Token (Kind)
open Text (bytes encode lineStarts)

/-- The written tokens that end at or before the byte `p`. -/
def tokensBefore (text : String) (p : Nat) : List Token :=
  (writtenTokens text).filter fun t =>
    (t.span.range? (lineStarts (bytes text))).any (·.stop ≤ p)

/-- The place in front of the byte `p` is neither inside of a token nor inside of a comment. -/
structure IsBoundary (text : String) (p : Nat) : Prop where
  le_length : p ≤ (bytes text).length
  token : ∀ r ∈ tokenRanges text, ¬(r.start < p ∧ p < r.stop)
  comment : ∀ q, p = q + 1 → ¬(InComment (bytes text) (tokenRanges text) q ∧
    InComment (bytes text) (tokenRanges text) p)

/-- A line feed in front of the byte `p` ends nothing: no token stands before it, the last one
continues the line, or a bracket is open. -/
def JoinsLinesAt (text : String) (p : Nat) : Prop :=
  tokensBefore text p = [] ∨
    (∃ t, (tokensBefore text p).getLast? = some t ∧ t.kind.continuesLine) ∨
    0 < openBrackets (tokensBefore text p)

/-- Nothing but a line feed, or a comment and a line feed. -/
inductive BlankLine : List Char → Prop
  | feed : BlankLine ['\n']
  | comment {tail : List Char} (h : ∀ c ∈ tail, c ≠ '\n') : BlankLine ('#' :: tail ++ ['\n'])

/-- The text `text'` is without faults and has the same kinds of tokens as `text`. -/
def ReadsAs (text text' : String) : Prop :=
  (lex text').faults = [] ∧ (lex text').tokens.map (·.kind) = (lex text).tokens.map (·.kind)

/-- What may be put in front of a place. -/
def Filler (ins : List Char) : Prop := (∀ c ∈ ins, Lexeme.isSpace c) ∨ BlankLine ins

namespace Lexeme

/-! ## Readings behind blanks -/

theorem skim_spaces {blanks : List Char} (h : ∀ c ∈ blanks, isSpace c) (cs : List Char) :
    skim (all (blanks ++ cs)) = skim (all cs) := by
  induction blanks with
  | nil => rfl
  | cons c blanks ih =>
    obtain ⟨hc, hblanks⟩ := List.forall_mem_cons.mp h
    rw [List.cons_append, skim_space hc, skim_dropWhile, ih hblanks]

/-- A comment is read as nothing, up to the end of its line. -/
theorem skim_comment {line rest : List Char} (hline : ∀ c ∈ line, c ≠ '\n')
    (hrest : ∀ c ∈ rest.head?, c = '\n') :
    skim (all ('#' :: (line ++ rest))) = skim (all rest) := by
  have hbody : ∀ c ∈ line, decide (c ≠ '\n') := fun c hc => decide_eq_true (hline c hc)
  have hend : ∀ c ∈ rest.head?, decide (c ≠ '\n') = false := by
    intro c hc
    rw [hrest c hc]
    rfl
  rw [skim_takeWhile (p := (· ≠ '\n')) rfl, (takeWhile_of_head hbody hend).2]

section
variable {ins rest : List Char}

theorem isGap_of_filler (h : Filler ins) (hne : ins ≠ []) : isGap (ins ++ rest) := by
  rcases h with hspaces | hline
  · cases ins with
    | nil => exact absurd rfl hne
    | cons c ins => simp [isGap, hspaces c List.mem_cons_self]
  · cases hline <;> rfl

/-- A token is read the same in front of anything that may be put behind it. -/
theorem follows_filler (h : Filler ins) : Follows rest (ins ++ rest) := by
  by_cases hnil : ins = []
  · subst hnil
    exact .inr ⟨rfl, fun _ => rfl⟩
  · exact .inl (isGap_of_filler h hnil)

theorem skim_blankLine (h : BlankLine ins) :
    skim (all (ins ++ rest)) = .lineFeed :: skim (all rest) := by
  cases h with
  | feed => exact skim_lineFeed rest
  | comment h =>
    rw [List.append_assoc, List.cons_append, skim_comment h (by rintro c ⟨⟩; rfl)]
    exact skim_lineFeed rest

/-- A comment at the end of its line takes up blanks and further comments. -/
theorem skim_comment_filler {tail : List Char} (htail : ∀ c ∈ tail, c ≠ '\n') (h : Filler ins)
    (hrest : ∀ c ∈ rest.head?, c = '\n') :
    skim (all ('#' :: (tail ++ (ins ++ rest)))) = skim (all (ins ++ rest)) := by
  have hfeed : ∀ c ∈ ('\n' :: rest).head?, c = '\n' := by
    rintro c ⟨⟩
    rfl
  rcases h with hspaces | hline
  · have hline : ∀ c ∈ tail ++ ins, c ≠ '\n' := by
      intro c hc
      rcases List.mem_append.mp hc with hc | hc
      · exact htail c hc
      · rintro rfl
        cases hspaces _ hc
    rw [← List.append_assoc, skim_comment hline hrest, skim_spaces hspaces]
  · rw [skim_blankLine hline, ← skim_lineFeed]
    cases hline with
    | feed => exact skim_comment htail hfeed
    | @comment tail' htail' =>
      have hline : ∀ c ∈ tail ++ '#' :: tail', c ≠ '\n' := by
        intro c hc
        rcases List.mem_append.mp hc with hc | hc
        · exact htail c hc
        · rcases List.mem_cons.mp hc with rfl | hc
          · decide
          · exact htail' c hc
      have hwhole : tail ++ ('#' :: tail' ++ ['\n'] ++ rest) =
          (tail ++ '#' :: tail') ++ '\n' :: rest := by
        simp only [List.append_assoc, List.cons_append, List.nil_append]
      rw [hwhole, skim_comment hline hfeed]

end

/-- The kind of the token that a reading is. -/
def Reading.kind? : Reading → Option Kind
  | token k _ => some k
  | _ => none

/-- The kinds of the tokens among readings. -/
def kindsOf (rs : List Reading) : List Kind := rs.filterMap Reading.kind?

theorem foldl_depthAfter (rs : List Reading) (depth : Nat) :
    rs.foldl Reading.depthAfter depth = (kindsOf rs).foldl Kind.depthAfter depth := by
  induction rs generalizing depth with
  | nil => rfl
  | cons r rs ih => cases r <;> exact ih _

end Lexeme

namespace Lexed
open Lexeme (skim all kindsOf Reading)

/-! ## Line feeds that end nothing -/

/-- One more line feed changes nothing where it ends nothing. Other line feeds may have ended a line
since the last token, and then this one ends nothing either. -/
theorem laid_insert {rs rs' : List Reading} {depth : Nat} {last : Option Kind}
    (h : State.joinsLines { depth := rs.foldl Reading.depthAfter depth,
                            last := (kindsOf rs).getLast?.or last }) :
    laid depth last (rs ++ .lineFeed :: rs') = laid depth last (rs ++ rs') := by
  induction rs generalizing depth last with
  | nil => exact if_pos h
  | cons r rs ih =>
    cases r with
    | blank | loneColon | stray => exact ih h
    | token k fault =>
      rw [List.cons_append, List.cons_append, laid, laid, ih]
      rw [← getLast?_cons_or]
      exact h
    | lineFeed =>
      rw [List.cons_append, List.cons_append, laid, laid]
      split
      · exact ih h
      · rw [ih]
        cases hlast : (kindsOf rs).getLast? with
        | none => simp [State.joinsLines]
        | some k =>
          have hkinds : kindsOf (.lineFeed :: rs) = kindsOf rs := rfl
          rw [hkinds, hlast] at h
          exact h

/-! ## Where something is put -/

/-- No comment of the text ahead that stands apart from the pieces has the byte `p` inside. -/
def OutsideComments (before ahead : List Char) (ps : List Piece) (p : Nat) : Prop :=
  ∀ front tail rest, ahead = front ++ '#' :: tail ++ rest → (∀ c ∈ tail, c ≠ '\n') →
    (∀ q ∈ ps, q.kind.endsLine = false →
      q.through <+: before ++ front ∨ before ++ front ++ '#' :: tail <+: q.before) →
    (encode (before ++ front)).length < p → (encode (before ++ front ++ '#' :: tail)).length ≤ p

/-- The byte `p` divides the text ahead into `x`, which is read as `rs`, and `y`, and this is so
whatever is put between them. -/
structure Insertion (before ahead : List Char) (ps : List Piece) (p : Nat) (x y : List Char)
    (rs : List Reading) : Prop where
  split : ahead = x ++ y
  length : (encode (before ++ x)).length = p
  ne_colon : x ≠ [':']
  readings : ∀ ins, Filler ins → skim (all (x ++ (ins ++ y))) = rs ++ skim (all (ins ++ y))
  kinds : kindsOf rs = ((written ps).filter (·.range.stop ≤ p)).map (·.kind)

section
variable {before ahead text rest x y : List Char} {depth p : Nat} {last : Option Kind}
  {ps qs : List Piece} {rs : List Reading}

theorem OutsideComments.behind (h : OutsideComments before (text ++ rest) qs p)
    (hqs : ∀ q ∈ qs, q.kind.endsLine = false → q ∈ ps ∨ q.through <+: before ++ text) :
    OutsideComments (before ++ text) rest ps p := by
  rintro front tail rest rfl htail hps hfirst
  rw [List.append_assoc before text front] at hps hfirst ⊢
  refine h (text ++ front) tail rest ?_ htail ?_ hfirst
  · simp only [List.append_assoc]
  · intro q hq hkind
    rcases hqs q hq hkind with hq | hpassed
    · exact hps q hq hkind
    · rw [← List.append_assoc]
      exact .inl (hpassed.trans (List.prefix_append _ _))

theorem Insertion.behind (h : Insertion (before ++ text) rest ps p x y rs) (rs' : List Reading)
    (hne : text ++ x ≠ [':'])
    (hread : ∀ ins, Filler ins →
      skim (all (text ++ (x ++ (ins ++ y)))) = rs' ++ skim (all (x ++ (ins ++ y))))
    (hkinds : kindsOf rs' ++ ((written ps).filter (·.range.stop ≤ p)).map (·.kind) =
      ((written qs).filter (·.range.stop ≤ p)).map (·.kind)) :
    Insertion before (text ++ rest) qs p (text ++ x) y (rs' ++ rs) := by
  constructor
  case split => rw [h.split, List.append_assoc]
  case length =>
    rw [← List.append_assoc]
    exact h.length
  case ne_colon => exact hne
  case readings =>
    intro ins hins
    rw [List.append_assoc, hread ins hins, h.readings ins hins, List.append_assoc]
  case kinds =>
    rw [← hkinds, ← h.kinds]
    exact List.filterMap_append

theorem written_cons {q : Piece} (h : q.kind.endsLine = false) :
    written (q :: ps) = q :: written ps :=
  List.filter_cons_of_pos (by rw [h]; rfl)

theorem FaultFree.lt_stop (h : FaultFree before depth last ahead ps) {q : Piece}
    (hq : q ∈ written ps) : (encode before).length < q.range.stop := by
  have hq := (mem_written.mp hq).1
  exact Nat.lt_of_le_of_lt (Text.length_encode_le (h.isPrefix hq)) (h.found hq).start_lt_stop

theorem filter_stop_eq_nil (h : ∀ q ∈ written ps, p < q.range.stop) :
    (written ps).filter (·.range.stop ≤ p) = [] := by
  rw [List.filter_eq_nil_iff]
  intro q hq
  have := h q hq
  rw [decide_eq_true_eq]
  omega

/-- At the start of the text ahead. -/
theorem FaultFree.insertion_nil (h : FaultFree before depth last ahead ps)
    (hp : (encode before).length = p) : Insertion before ahead ps p [] ahead [] := by
  refine ⟨rfl, by rwa [List.append_nil], List.cons_ne_nil _ _ ∘ Eq.symm, fun _ _ => rfl, ?_⟩
  rw [filter_stop_eq_nil fun q hq => hp ▸ h.lt_stop hq]
  rfl

theorem length_encode_spaces {blanks : List Char} (h : ∀ c ∈ blanks, Lexeme.isSpace c) :
    (encode blanks).length = blanks.length := by
  induction blanks with
  | nil => rfl
  | cons c blanks ih =>
    obtain ⟨hc, hblanks⟩ := List.forall_mem_cons.mp h
    have hsize : c.utf8Size = 1 := by
      simp only [Lexeme.isSpace, Bool.or_eq_true, decide_eq_true_eq] at hc
      rcases hc with (rfl | rfl) | rfl <;> rfl
    rw [Text.encode_cons, List.length_append, String.length_utf8EncodeChar, ih hblanks, hsize,
      List.length_cons]
    omega

/-- Inside of a run of blanks, every byte is a character of its own. -/
theorem FaultFree.insertion_spaces (h : FaultFree (before ++ text) depth last rest ps)
    (hspaces : ∀ c ∈ text, Lexeme.isSpace c) (hfirst : (encode before).length ≤ p)
    (hlast : p < (encode (before ++ text)).length) :
    ∃ x y, Insertion before (text ++ rest) ps p x y [] := by
  have hsplit : text.take (p - (encode before).length) ++ text.drop (p - (encode before).length) =
      text := List.take_append_drop _ _
  have htake : ∀ c ∈ text.take (p - (encode before).length), Lexeme.isSpace c :=
    fun c hc => hspaces c (List.mem_of_mem_take hc)
  refine ⟨text.take (p - (encode before).length), text.drop (p - (encode before).length) ++ rest,
    ?_, ?_, ?_, ?_, ?_⟩
  · rw [← List.append_assoc, hsplit]
  · rw [Text.encode_append, List.length_append, length_encode_spaces hspaces] at hlast
    rw [Text.encode_append, List.length_append, length_encode_spaces htake, List.length_take]
    omega
  · intro hcolon
    rw [hcolon] at htake
    cases htake ':' List.mem_cons_self
  · exact fun ins _ => Lexeme.skim_spaces htake _
  · rw [filter_stop_eq_nil fun q hq => Nat.lt_trans hlast (h.lt_stop hq)]
    rfl

theorem Insertion.spaces (h : Insertion (before ++ text) rest ps p x y rs)
    (hspaces : ∀ c ∈ text, Lexeme.isSpace c) :
    Insertion before (text ++ rest) ps p (text ++ x) y rs := by
  refine h.behind [] ?_ (fun ins _ => Lexeme.skim_spaces hspaces _) rfl
  intro hcolon
  cases text with
  | nil => exact h.ne_colon hcolon
  | cons c text =>
    obtain ⟨rfl, -⟩ := List.cons.inj hcolon
    cases hspaces ':' List.mem_cons_self

theorem Insertion.comment {tail : List Char} (hline : ∀ c ∈ tail, c ≠ '\n')
    (hend : ∀ c ∈ rest.head?, c = '\n') (h : Insertion (before ++ '#' :: tail) rest ps p x y rs) :
    Insertion before ('#' :: tail ++ rest) ps p ('#' :: tail ++ x) y rs := by
  refine h.behind [] (fun hcolon => by cases hcolon) (fun ins hins => ?_) rfl
  rw [h.split] at hend
  cases x with
  | nil => exact (Lexeme.skim_comment_filler hline hins hend :)
  | cons c x => exact Lexeme.skim_comment hline hend

theorem Insertion.feed (hqs : written qs = written ps)
    (h : Insertion (before ++ ['\n']) rest ps p x y rs) :
    Insertion before ('\n' :: rest) qs p ('\n' :: x) y (.lineFeed :: rs) := by
  refine h.behind [.lineFeed] (fun hcolon => by cases hcolon) (fun ins _ => ?_) (by rw [hqs]; rfl)
  exact Lexeme.skim_lineFeed _

theorem Insertion.token {c : Char} {tail : List Char} {k : Kind}
    (hscan : Lexeme.scan c (tail ++ rest) = (.token k none, tail))
    (hp : (encode (before ++ c :: tail)).length ≤ p)
    (h : Insertion (before ++ c :: tail) rest ps p x y rs) :
    Insertion before (c :: tail ++ rest) (⟨before, c :: tail, k⟩ :: ps) p (c :: tail ++ x) y
      (.token k none :: rs) := by
  rw [h.split] at hscan
  refine h.behind [.token k none] ?_ (fun ins hins => ?_) ?_
  · intro hcolon
    obtain ⟨rfl, hnil⟩ := List.cons.inj hcolon
    exact Lexeme.colon_ne_nil hscan (List.append_eq_nil_iff.mp hnil).1
  · have hfollows : Lexeme.Follows (x ++ y) (x ++ (ins ++ y)) := by
      by_cases hx : x = []
      · subst hx
        exact Lexeme.follows_filler hins
      · exact Lexeme.follows_append hx h.ne_colon
    exact Lexeme.skim_of_scan (Lexeme.scan_of_follows hscan hfollows) fun h => by cases h
  · have hkind := Lexeme.not_endsLine_of_scan hscan
    rw [written_cons hkind, List.filter_cons_of_pos]
    · rfl
    · exact decide_eq_true hp

theorem FaultFree.exists_insertion_of_le (h : FaultFree before depth last ahead ps)
    (hfirst : (encode before).length ≤ p)
    (hlater : (encode before).length < p → ∃ x y rs, Insertion before ahead ps p x y rs) :
    ∃ x y rs, Insertion before ahead ps p x y rs := by
  rcases Nat.eq_or_lt_of_le hfirst with hp | hp
  · exact ⟨[], ahead, [], h.insertion_nil hp⟩
  · exact hlater hp

/-- Every place that is not inside of a token or a comment divides the text ahead. -/
theorem FaultFree.exists_insertion (h : FaultFree before depth last ahead ps)
    (hfirst : (encode before).length < p) (hlast : p ≤ (encode (before ++ ahead)).length)
    (htokens : ∀ q ∈ ps, q.kind.endsLine = false → ¬(q.range.start < p ∧ p < q.range.stop))
    (hcomments : OutsideComments before ahead ps p) :
    ∃ x y rs, Insertion before ahead ps p x y rs := by
  induction h with
  | done =>
    rw [List.append_nil] at hlast
    omega
  | @blank before tail rest _ _ c ps hscan hrest ih =>
    have hlater (hp : (encode (before ++ c :: tail)).length ≤ p) :
        ∃ x y rs, Insertion (before ++ c :: tail) rest ps p x y rs :=
      hrest.exists_insertion_of_le hp fun hlt =>
        ih hlt (by rwa [List.append_assoc]) htokens (hcomments.behind fun q hq _ => .inl hq)
    rcases Lexeme.blank_cases hscan with hspaces | ⟨rfl, hline, hend⟩
    · by_cases hp : (encode (before ++ c :: tail)).length ≤ p
      · obtain ⟨x, y, rs, hins⟩ := hlater hp
        exact ⟨_, y, rs, hins.spaces hspaces⟩
      · obtain ⟨x, y, hins⟩ :=
          hrest.insertion_spaces hspaces (Nat.le_of_lt hfirst) (Nat.lt_of_not_le hp)
        exact ⟨x, y, [], hins⟩
    · have hp : (encode (before ++ '#' :: tail)).length ≤ p := by
        have hout := hcomments [] tail rest rfl hline
        rw [List.append_nil] at hout
        exact hout (fun q hq _ => .inr (hrest.isPrefix hq)) hfirst
      obtain ⟨x, y, rs, hins⟩ := hlater hp
      exact ⟨_, y, rs, hins.comment hline hend⟩
  | @join before rest _ _ ps _ hrest ih =>
    have hp : (encode (before ++ ['\n'])).length ≤ p := by
      rw [Text.encode_append, List.length_append]
      exact hfirst
    obtain ⟨x, y, rs, hins⟩ := hrest.exists_insertion_of_le hp fun hlt =>
      ih hlt (by rwa [List.append_assoc]) htokens (hcomments.behind fun q hq _ => .inl hq)
    exact ⟨_, y, _, hins.feed rfl⟩
  | @lineEnd before rest _ _ ps _ hrest ih =>
    have hp : (encode (before ++ ['\n'])).length ≤ p := by
      rw [Text.encode_append, List.length_append]
      exact hfirst
    have hcomments : OutsideComments (before ++ ['\n']) rest ps p := by
      refine hcomments.behind fun q hq _ => ?_
      rcases List.mem_cons.mp hq with rfl | hq
      · exact .inr List.prefix_rfl
      · exact .inl hq
    obtain ⟨x, y, rs, hins⟩ := hrest.exists_insertion_of_le hp fun hlt =>
      ih hlt (by rwa [List.append_assoc]) (List.forall_mem_cons.mp htokens).2 hcomments
    have hwritten : written (⟨before, ['\n'], .newline⟩ :: ps) = written ps := rfl
    exact ⟨_, y, _, hins.feed hwritten⟩
  | @token before tail rest _ _ c k ps hscan hrest ih =>
    rw [List.forall_mem_cons] at htokens
    have hkind := Lexeme.not_endsLine_of_scan hscan
    have hp : (encode (before ++ c :: tail)).length ≤ p := by
      by_contra hlt
      exact htokens.1 hkind ⟨hfirst, Nat.lt_of_not_le hlt⟩
    have hcomments : OutsideComments (before ++ c :: tail) rest ps p := by
      refine hcomments.behind fun q hq _ => ?_
      rcases List.mem_cons.mp hq with rfl | hq
      · exact .inr List.prefix_rfl
      · exact .inl hq
    obtain ⟨x, y, rs, hins⟩ := hrest.exists_insertion_of_le hp fun hlt =>
      ih hlt (by rwa [List.append_assoc]) htokens.2 hcomments
    exact ⟨_, y, _, hins.token hscan hp⟩

/-- The readings of a text without faults. -/
theorem FaultFree.sound (h : FaultFree before depth last ahead ps) :
    (∀ r ∈ skim (all ahead), r.isSound) ∧
      (skim (all ahead)).foldl Reading.depthAfter depth = 0 := by
  induction h with
  | done => simp [all, skim]
  | blank hscan _ ih =>
    rw [Lexeme.all_cons, hscan, List.drop_left, Lexeme.skim_cons_blank rfl]
    exact ih
  | join _ _ ih | lineEnd _ _ ih =>
    rw [Lexeme.skim_lineFeed]
    exact ⟨List.forall_mem_cons.mpr ⟨rfl, ih.1⟩, ih.2⟩
  | token hscan _ ih =>
    rw [Lexeme.skim_of_scan hscan fun h => by cases h]
    exact ⟨List.forall_mem_cons.mpr ⟨rfl, ih.1⟩, ih.2⟩

end

end Lexed

/-! ## Texts with something put in -/

open Lexed (Piece FaultFree Insertion OutsideComments laid written)
open Lexeme (skim all kindsOf Reading)

section
variable {text text' : String} {ps : List Piece} {p : Nat}

/-- Texts are compared by their readings. -/
theorem readsAs_of_skim (h : FaultFree [] 0 none text.toList ps)
    (hsound : ∀ r ∈ skim (all text'.toList), r.isSound)
    (hdepth : (skim (all text'.toList)).foldl Reading.depthAfter 0 = 0)
    (hlaid : laid 0 none (skim (all text'.toList)) = laid 0 none (skim (all text.toList))) :
    ReadsAs text text' := by
  have hlimit : ({} : Lexed.State).budget ≠ 0 := by decide
  obtain ⟨hfaults, hkinds⟩ := Lexed.layout_of_isSound hsound hlimit hdepth
  obtain ⟨-, hkinds'⟩ := Lexed.layout_of_isSound h.sound.1 hlimit h.sound.2
  exact ⟨hfaults, hkinds.trans ((congrArg (· ++ [Kind.eof]) hlaid).trans hkinds'.symm)⟩

theorem tokensBefore_eq (h : FaultFree [] 0 none text.toList ps)
    (htokens : (lex text).tokens = Lexed.tokensOf ps text.toList) :
    tokensBefore text p = ((written ps).filter (·.range.stop ≤ p)).map (·.token) := by
  rw [tokensBefore, writtenTokens_eq htokens, List.filter_map, Text.bytes_eq_encode]
  congr 1
  refine List.filter_congr fun q hq => ?_
  rw [Function.comp_apply, Lexed.range?_of_mem_written h hq]
  rfl

theorem outsideComments_of_isBoundary (h : FaultFree [] 0 none text.toList ps)
    (htokens : (lex text).tokens = Lexed.tokensOf ps text.toList) (hp : IsBoundary text p) :
    OutsideComments [] text.toList ps p := by
  intro front tail rest hsplit hline hapart hfirst
  by_contra hlast
  have hlast : p < (encode (front ++ '#' :: tail)).length := Nat.lt_of_not_le hlast
  obtain ⟨q, rfl⟩ : ∃ q, p = q + 1 := Nat.exists_eq_succ_of_ne_zero (Nat.ne_zero_of_lt hfirst)
  have hfirst : (encode front).length ≤ q := Nat.le_of_lt_succ hfirst
  have hout : ∀ r ∈ tokenRanges text, (encode front).length ∉ r := by
    rw [tokenRanges_eq h htokens, Lexed.forall_range_written]
    intro piece hpiece hkind
    exact piece.notMem_range (by omega) (hapart piece hpiece hkind)
  refine hp.comment q rfl ?_
  rw [Text.bytes_eq_encode, hsplit]
  exact ⟨inComment_of_comment hline hfirst (by omega) hout,
    inComment_of_comment hline (by omega) hlast hout⟩

/-- Where a line feed ends nothing by the tokens before it, it ends nothing by the readings. -/
theorem joinsLines_of_joinsLinesAt {rs : List Reading}
    (hkinds : kindsOf rs = (tokensBefore text p).map (·.kind)) (hjoins : JoinsLinesAt text p) :
    Lexed.State.joinsLines { depth := rs.foldl Reading.depthAfter 0,
                             last := (kindsOf rs).getLast?.or none } := by
  rw [Lexeme.foldl_depthAfter, hkinds, List.getLast?_map, Option.or_none]
  rcases hjoins with hnone | ⟨t, hlast, hcontinues⟩ | hdepth
  · simp [Lexed.State.joinsLines, hnone]
  · simp [Lexed.State.joinsLines, hlast, hcontinues]
  · have hdepth : 0 < ((tokensBefore text p).map (·.kind)).foldl Kind.depthAfter 0 := hdepth
    simp [Lexed.State.joinsLines, hdepth]

end

/-- Layout is free between tokens. -/
theorem readsAs_of_insert {text : String} (h : (lex text).faults = []) {p : Nat}
    (hp : IsBoundary text p) :
    ∃ pre post : String, text = pre ++ post ∧ (bytes pre).length = p ∧
      (∀ blanks : String, (∀ c ∈ blanks.toList, Lexeme.isSpace c) →
        ReadsAs text (pre ++ blanks ++ post)) ∧
      (JoinsLinesAt text p → ∀ line : String, BlankLine line.toList →
        ReadsAs text (pre ++ line ++ post)) := by
  obtain ⟨ps, hps, htokens⟩ := exists_faultFree h
  have hcomments := outsideComments_of_isBoundary hps htokens hp
  have hlength := hp.le_length
  rw [Text.bytes_eq_encode] at hlength
  have hranges := hp.token
  rw [tokenRanges_eq hps htokens, Lexed.forall_range_written] at hranges
  obtain ⟨x, y, rs, hins⟩ := hps.exists_insertion_of_le (Nat.zero_le p) fun hfirst =>
    hps.exists_insertion hfirst hlength hranges hcomments
  have hread : skim (all text.toList) = rs ++ skim (all y) := by
    rw [hins.split]
    exact hins.readings [] (.inl (by simp))
  refine ⟨String.ofList x, String.ofList y, ?_, ?_, ?_, ?_⟩
  · rw [← String.ofList_append, ← hins.split, String.ofList_toList]
  · rw [Text.bytes_eq_encode, String.toList_ofList]
    exact hins.length
  · intro blanks hblanks
    have hsame : skim (all (String.ofList x ++ blanks ++ String.ofList y).toList) =
        skim (all text.toList) := by
      simp only [String.toList_append, String.toList_ofList, List.append_assoc]
      rw [hins.readings _ (.inl hblanks), Lexeme.skim_spaces hblanks, hread]
    refine readsAs_of_skim hps ?_ ?_ ?_
    · rw [hsame]
      exact hps.sound.1
    · rw [hsame]
      exact hps.sound.2
    · rw [hsame]
  · intro hjoins line hline
    have hsame : skim (all (String.ofList x ++ line ++ String.ofList y).toList) =
        rs ++ .lineFeed :: skim (all y) := by
      simp only [String.toList_append, String.toList_ofList, List.append_assoc]
      rw [hins.readings _ (.inr hline), Lexeme.skim_blankLine hline]
    obtain ⟨hsound, hdepth⟩ := hps.sound
    rw [hread, List.forall_mem_append] at hsound
    rw [hread, List.foldl_append] at hdepth
    refine readsAs_of_skim hps ?_ ?_ ?_
    · rw [hsame, List.forall_mem_append]
      exact ⟨hsound.1, List.forall_mem_cons.mpr ⟨rfl, hsound.2⟩⟩
    · rw [hsame, List.foldl_append]
      exact hdepth
    · have hkinds : kindsOf rs = (tokensBefore text p).map (·.kind) := by
        rw [hins.kinds, tokensBefore_eq hps htokens, List.map_map]
        rfl
      rw [hsame, hread]
      exact Lexed.laid_insert (joinsLines_of_joinsLinesAt hkinds hjoins)

theorem readsAs_of_insert_in_brackets :
    ∃ pre post : String, "f( # x\n)" = pre ++ post ∧ (bytes pre).length = 2 ∧
      (∀ blanks : String, (∀ c ∈ blanks.toList, Lexeme.isSpace c) →
        ReadsAs "f( # x\n)" (pre ++ blanks ++ post)) ∧
      ∀ line : String, BlankLine line.toList → ReadsAs "f( # x\n)" (pre ++ line ++ post) := by
  have hclean : (lex "f( # x\n)").faults = [] := by decide +kernel
  have hboundary : IsBoundary "f( # x\n)" 2 := by
    refine ⟨by decide +kernel, by decide +kernel, ?_⟩
    rintro q hq ⟨⟨j, hj, hhash, -⟩, -⟩
    obtain rfl | rfl : j = 0 ∨ j = 1 := by omega
    · exact absurd hhash (by decide +kernel)
    · exact absurd hhash (by decide +kernel)
  have hopen : 0 < openBrackets (tokensBefore "f( # x\n)" 2) := by decide +kernel
  obtain ⟨pre, post, hsplit, hlength, hblanks, hlines⟩ := readsAs_of_insert hclean hboundary
  exact ⟨pre, post, hsplit, hlength, hblanks, hlines (.inr (.inr hopen))⟩

end NativeInterface
