import NativeInterface.Proofs.Tiling

/-!
# Ends of declarations

A line end stands where a declaration can end: outside of brackets, behind a token that is no line
end and does not continue the line. In a text without faults there is one between two tokens exactly
if a line feed stands between them and a declaration can end there (`lineEnds_of_lex`).
-/

namespace NativeInterface
open Token (Kind)
open Text (bytes encode lineStarts)

/-- The number of brackets open behind tokens. -/
def openBrackets (ts : List Token) : Nat := (ts.map (·.kind)).foldl Kind.depthAfter 0

/-- Tokens with one end of the file, which is the last of them, and with line ends only where a
declaration can end. -/
structure EndsDeclarations (tokens : List Token) : Prop where
  eof : ∃ ts t, tokens = ts ++ [t] ∧ t.kind = .eof ∧ ∀ t' ∈ ts, t'.kind ≠ .eof
  newline : ∀ front t rest, tokens = front ++ t :: rest → t.kind = .newline →
    openBrackets front = 0 ∧
      ∃ ts u, front = ts ++ [u] ∧ u.kind ≠ .newline ∧ u.kind.continuesLine = false

namespace Lexed

theorem joinsLines_eq_false_iff {depth : Nat} {last : Option Kind} :
    State.joinsLines { depth, last } = false ↔
      depth = 0 ∧ ∃ k, last = some k ∧ k ≠ .newline ∧ k.continuesLine = false := by
  cases last with
  | none => simp [State.joinsLines]
  | some k => simp [State.joinsLines]

/-! ## Kinds along a text -/

/-- Kinds of tokens with so many brackets open and such a token in front of them. -/
inductive Marked : Nat → Option Kind → List Kind → Prop
  | eof {depth : Nat} {last : Option Kind} : Marked depth last [.eof]
  | newline {depth : Nat} {last : Option Kind} {ks : List Kind}
    (hends : State.joinsLines { depth, last } = false) (hrest : Marked depth (some .newline) ks) :
    Marked depth last (.newline :: ks)
  | token {depth : Nat} {last : Option Kind} {k : Kind} {ks : List Kind}
    (hk : k.endsLine = false) (hrest : Marked (k.depthAfter depth) (some k) ks) :
    Marked depth last (k :: ks)

/-- The tokens of all lexemes are marked, with or without faults. -/
theorem marked_layout {ls : List Lexeme} {s : State}
    (hkinds : ∀ l ∈ ls, ∀ k fault, l.reading = .token k fault → k.endsLine = false) :
    Marked s.depth s.last ((layout ls s).tokens.map (·.kind)) := by
  fun_induction layout ls s with
  | case1 | case2 | case3 => exact .eof
  | case4 l ls s _ stop _ ih | case5 l ls s _ stop _ _ ih
  | case8 l ls s _ stop span _ ih | case9 l ls s _ c _ found ih =>
    exact ih (List.forall_mem_cons.mp hkinds).2
  | case6 l ls s _ stop span _ hjoins ih =>
    exact .newline (Bool.eq_false_iff.mpr hjoins) (ih (List.forall_mem_cons.mp hkinds).2)
  | case7 l ls s _ stop span k fault hl found ih =>
    obtain ⟨hkind, hkinds⟩ := List.forall_mem_cons.mp hkinds
    exact .token (hkind k fault hl) (ih hkinds)

section
variable {depth : Nat} {last : Option Kind} {ks : List Kind}

theorem Marked.exists_eof (h : Marked depth last ks) :
    ∃ init, ks = init ++ [Kind.eof] ∧ Kind.eof ∉ init := by
  induction h with
  | eof => exact ⟨[], rfl, List.not_mem_nil⟩
  | newline _ _ ih =>
    obtain ⟨init, rfl, hinit⟩ := ih
    exact ⟨.newline :: init, rfl, by simp [hinit]⟩
  | @token _ _ k _ hk _ ih =>
    obtain ⟨init, rfl, hinit⟩ := ih
    refine ⟨k :: init, rfl, ?_⟩
    rw [List.mem_cons, not_or]
    refine ⟨?_, hinit⟩
    rintro rfl
    cases hk

theorem getLast?_cons_or (k : Kind) (ks : List Kind) :
    (k :: ks).getLast?.or last = ks.getLast?.or (some k) := by
  rw [List.getLast?_cons]
  cases ks.getLast? <;> rfl

/-- A line end stands where a declaration can end. -/
theorem Marked.joinsLines_eq_false (h : Marked depth last ks) {front rest : List Kind}
    (hsplit : ks = front ++ .newline :: rest) :
    State.joinsLines { depth := front.foldl Kind.depthAfter depth,
                       last := front.getLast?.or last } = false := by
  induction h generalizing front with
  | eof =>
    cases front with
    | nil => cases hsplit
    | cons k front =>
      have hnil := (List.cons.inj hsplit).2
      exact absurd hnil.symm (List.append_ne_nil_of_right_ne_nil _ (List.cons_ne_nil _ _))
  | newline hends _ ih =>
    cases front with
    | nil => exact hends
    | cons k front =>
      obtain ⟨rfl, htail⟩ := List.cons.inj hsplit
      rw [getLast?_cons_or]
      exact ih htail
  | token hk _ ih =>
    cases front with
    | nil =>
      obtain ⟨rfl, -⟩ := List.cons.inj hsplit
      cases hk
    | cons k front =>
      obtain ⟨rfl, htail⟩ := List.cons.inj hsplit
      rw [getLast?_cons_or]
      exact ih htail

end

/-- Tokens whose kinds are marked from the start of a text. -/
theorem endsDeclarations_of_marked {ts : List Token} (h : Marked 0 none (ts.map (·.kind))) :
    EndsDeclarations ts := by
  constructor
  case eof =>
    obtain ⟨init, hsplit, heof⟩ := h.exists_eof
    obtain ⟨front, last, rfl, rfl, hlast⟩ := List.map_eq_append_iff.mp hsplit
    obtain ⟨t, rfl, ht⟩ := List.map_eq_singleton_iff.mp hlast
    refine ⟨front, t, rfl, ht, ?_⟩
    intro t' ht' hkind
    exact heof (hkind ▸ List.mem_map_of_mem ht')
  case newline =>
    rintro front t rest rfl ht
    have hsplit : (front ++ t :: rest).map (·.kind) =
        front.map (·.kind) ++ .newline :: rest.map (·.kind) := by
      rw [List.map_append, List.map_cons, ht]
    have hends := h.joinsLines_eq_false hsplit
    obtain ⟨hdepth, k, hlast, hnewline, hcontinues⟩ := joinsLines_eq_false_iff.mp hends
    refine ⟨hdepth, ?_⟩
    rw [Option.or_none, List.getLast?_map, Option.map_eq_some_iff] at hlast
    obtain ⟨u, hu, rfl⟩ := hlast
    obtain ⟨ts, rfl⟩ := List.getLast?_eq_some_iff.mp hu
    exact ⟨ts, u, rfl, hnewline, hcontinues⟩

/-! ## Line feeds between tokens -/

theorem feed_notMem_blank {c : Char} {tail rest : List Char}
    (h : Lexeme.scan c (tail ++ rest) = (.blank, tail)) : '\n' ∉ c :: tail := by
  rcases Lexeme.blank_cases h with hspaces | ⟨rfl, hline, -⟩
  · intro hfeed
    cases hspaces _ hfeed
  · rw [List.mem_cons, not_or]
    exact ⟨by decide, fun hfeed => hline _ hfeed rfl⟩

section
variable {before ahead : List Char} {depth : Nat} {last : Option Kind} {ps : List Piece}
  {t u : Token} {front mid later : List Token}

/-- Up to the next token that is no line end there are line ends exactly if the text up to it has a
line feed and a declaration can end here. -/
theorem FaultFree.lineEnds_ahead (h : FaultFree before depth last ahead ps)
    (hsplit : tokensOf ps (before ++ ahead) = mid ++ u :: later)
    (hmid : ∀ m ∈ mid, m.kind = .newline) (hu : u.kind ≠ .newline) :
    ∃ gap, gap <+: ahead ∧ u.span.first = (Position.start.after (before ++ gap)).pair ∧
      (mid ≠ [] ↔ '\n' ∈ gap ∧ State.joinsLines { depth, last } = false) := by
  induction h generalizing mid with
  | done =>
    cases mid with
    | nil =>
      obtain ⟨rfl, -⟩ := List.cons.inj hsplit
      refine ⟨[], List.prefix_rfl, ?_, by simp⟩
      rw [List.append_nil]
      rfl
    | cons m mid =>
      obtain ⟨rfl, -⟩ := List.cons.inj hsplit
      cases hmid _ List.mem_cons_self
  | @blank _ tail _ _ _ c _ hscan _ ih =>
    obtain ⟨gap, hgap, hfirst, hiff⟩ := ih (by rwa [List.append_assoc]) hmid
    refine ⟨c :: tail ++ gap, (List.prefix_append_right_inj _).mpr hgap, ?_, ?_⟩
    · rw [hfirst, List.append_assoc]
    · rw [List.mem_append, or_iff_right (feed_notMem_blank hscan)]
      exact hiff
  | join hjoins _ ih =>
    obtain ⟨gap, hgap, hfirst, hiff⟩ := ih (by rwa [List.append_assoc]) hmid
    refine ⟨'\n' :: gap, (List.prefix_cons_inj _).mpr hgap, ?_, ?_⟩
    · rw [hfirst, List.append_assoc]
      rfl
    · rw [hjoins] at hiff ⊢
      simpa using hiff
  | lineEnd hjoins _ ih =>
    cases mid with
    | nil =>
      obtain ⟨rfl, -⟩ := List.cons.inj hsplit
      exact absurd rfl hu
    | cons m mid =>
      have htail := (List.cons.inj hsplit).2
      obtain ⟨gap, hgap, hfirst, -⟩ :=
        ih (by rwa [List.append_assoc]) (List.forall_mem_cons.mp hmid).2
      refine ⟨'\n' :: gap, (List.prefix_cons_inj _).mpr hgap, ?_, ?_⟩
      · rw [hfirst, List.append_assoc]
        rfl
      · simpa using hjoins
  | @token _ _ _ _ _ _ k _ hscan _ ih =>
    cases mid with
    | nil =>
      obtain ⟨rfl, -⟩ := List.cons.inj hsplit
      refine ⟨[], List.nil_prefix, ?_, by simp⟩
      rw [List.append_nil]
      rfl
    | cons m mid =>
      obtain ⟨rfl, -⟩ := List.cons.inj hsplit
      obtain rfl : k = .newline := hmid _ List.mem_cons_self
      cases Lexeme.not_endsLine_of_scan hscan

/-- A token `t` stands in the text ahead, and the text `gap` between it and the token `u`. -/
def Apart (before ahead : List Char) (t u : Token) (gap : List Char) : Prop :=
  ∃ x word y c, ahead = x ++ word ++ gap ++ y ∧ word.getLast? = some c ∧ c ≠ '\n' ∧
    t.span = .between (Position.start.after (before ++ x))
      (Position.start.after (before ++ x ++ word)) ∧
    u.span.first = (Position.start.after (before ++ x ++ word ++ gap)).pair

theorem Apart.behind {text gap : List Char} (h : Apart (before ++ text) ahead t u gap) :
    Apart before (text ++ ahead) t u gap := by
  obtain ⟨x, word, y, c, rfl, hlast, hc, hspan, hfirst⟩ := h
  rw [List.append_assoc before text x] at hspan hfirst
  refine ⟨text ++ x, word, y, c, ?_, hlast, hc, hspan, hfirst⟩
  simp only [List.append_assoc]

/-- Between a token and the next one that is no line end there are line ends exactly if the text
between them has a line feed and a declaration can end behind the first. -/
theorem FaultFree.lineEnds_between (h : FaultFree before depth last ahead ps)
    (hsplit : tokensOf ps (before ++ ahead) = front ++ t :: (mid ++ u :: later))
    (ht : t.kind ≠ .newline) (hmid : ∀ m ∈ mid, m.kind = .newline) (hu : u.kind ≠ .newline) :
    ∃ gap, Apart before ahead t u gap ∧ (mid ≠ [] ↔ '\n' ∈ gap ∧
      State.joinsLines { depth := ((front ++ [t]).map (·.kind)).foldl Kind.depthAfter depth,
                         last := some t.kind } = false) := by
  induction h generalizing front with
  | done =>
    have hlength := congrArg List.length hsplit
    simp [tokensOf] at hlength
    omega
  | blank _ _ ih | join _ _ ih =>
    obtain ⟨gap, hapart, hiff⟩ := ih (by rwa [List.append_assoc])
    exact ⟨gap, hapart.behind, hiff⟩
  | lineEnd _ _ ih =>
    cases front with
    | nil =>
      obtain ⟨rfl, -⟩ := List.cons.inj hsplit
      exact absurd rfl ht
    | cons f front =>
      obtain ⟨rfl, htail⟩ := List.cons.inj hsplit
      obtain ⟨gap, hapart, hiff⟩ := ih (by rw [List.append_assoc]; exact htail)
      exact ⟨gap, hapart.behind, hiff⟩
  | @token before tail _ _ _ c k _ hscan hrest ih =>
    cases front with
    | nil =>
      obtain ⟨rfl, htail⟩ := List.cons.inj hsplit
      obtain ⟨gap, ⟨y, rfl⟩, hfirst, hiff⟩ :=
        hrest.lineEnds_ahead (by rw [List.append_assoc]; exact htail) hmid hu
      obtain ⟨d, hlast, hd⟩ := Lexeme.getLast?_of_scan hscan
      refine ⟨gap, ⟨[], c :: tail, y, d, ?_, hlast, hd, ?_, ?_⟩, hiff⟩
      · simp only [List.nil_append, List.cons_append, List.append_assoc]
      · rw [List.append_nil]
        rfl
      · rw [List.append_nil, hfirst]
    | cons f front =>
      obtain ⟨rfl, htail⟩ := List.cons.inj hsplit
      obtain ⟨gap, hapart, hiff⟩ := ih (by rw [List.append_assoc]; exact htail)
      exact ⟨gap, hapart.behind, hiff⟩

end

end Lexed

theorem Text.feed_mem_encode {cs : List Char} : 10 ∈ encode cs ↔ '\n' ∈ cs := by
  rw [encode, List.mem_flatMap]
  constructor
  · rintro ⟨c, hc, hfeed⟩
    by_cases hne : c = '\n'
    · exact hne ▸ hc
    · exact absurd hfeed (feed_notMem_utf8EncodeChar hne)
  · exact fun h => ⟨'\n', h, List.mem_singleton.mpr rfl⟩

theorem endsDeclarations_lex (text : String) : EndsDeclarations (lex text).tokens := by
  refine Lexed.endsDeclarations_of_marked (Lexed.marked_layout (s := {}) ?_)
  intro l hl k fault hread
  obtain ⟨c, rest, hscan⟩ := Lexeme.mem_all hl
  exact Lexeme.not_endsLine_of_scan (Prod.ext (hscan.symm.trans hread) rfl)

/-- Line ends mark the ends of declarations. -/
theorem lineEnds_of_lex (text : String) :
    EndsDeclarations (lex text).tokens ∧
      ((lex text).faults = [] → ∀ front t mid u later,
        (lex text).tokens = front ++ t :: (mid ++ u :: later) →
        t.kind ≠ .newline → (∀ m ∈ mid, m.kind = .newline) → u.kind ≠ .newline →
        ∃ r stop, t.span.range? (lineStarts (bytes text)) = some r ∧
          byteAt? (lineStarts (bytes text)) u.span.first = some stop ∧
          (mid ≠ [] ↔ 10 ∈ ((bytes text).take stop).drop r.stop ∧
            openBrackets (front ++ [t]) = 0 ∧ t.kind.continuesLine = false)) := by
  refine ⟨endsDeclarations_lex text, ?_⟩
  intro h front t mid u later hsplit ht hmid hu
  obtain ⟨ps, hps, htokens⟩ := exists_faultFree h
  obtain ⟨gap, ⟨x, word, y, c, htext, hlast, hc, hspan, hfirst⟩, hiff⟩ :=
    hps.lineEnds_between (htokens.symm.trans hsplit) ht hmid hu
  simp only [List.nil_append] at hspan hfirst
  have hplace := Span.range?_between x hlast hc (gap ++ y)
  rw [← List.append_assoc, ← htext, ← Text.bytes_eq_encode, ← hspan] at hplace
  have hnext := byteAt?_after (x ++ word ++ gap) y
  rw [← htext, ← Text.bytes_eq_encode, ← hfirst] at hnext
  refine ⟨_, _, hplace, hnext, ?_⟩
  rw [Text.bytes_eq_encode, htext, Text.encode_append _ y, List.take_left,
    Text.encode_append _ gap, List.drop_left, Text.feed_mem_encode, hiff,
    Lexed.joinsLines_eq_false_iff]
  simp [openBrackets, ht]

theorem lineEnds_of_two_lines :
    (lex "a)\nb").faults = [] ∧ ∃ r stop,
      (⟨1, 2, 1, 2⟩ : Span).range? (lineStarts (bytes "a)\nb")) = some r ∧
      byteAt? (lineStarts (bytes "a)\nb")) (2, 1) = some stop ∧
      10 ∈ ((bytes "a)\nb").take stop).drop r.stop ∧
      openBrackets [⟨.identifier "a", ⟨1, 1, 1, 1⟩⟩, ⟨.rparen, ⟨1, 2, 1, 2⟩⟩] = 0 := by
  have hclean : (lex "a)\nb").faults = [] := by decide +kernel
  have hsplit : (lex "a)\nb").tokens =
      [⟨.identifier "a", ⟨1, 1, 1, 1⟩⟩] ++ ⟨.rparen, ⟨1, 2, 1, 2⟩⟩ ::
        ([⟨.newline, ⟨1, 3, 2, 1⟩⟩] ++ ⟨.identifier "b", ⟨2, 1, 2, 1⟩⟩ ::
          [⟨.eof, ⟨2, 2, 2, 2⟩⟩]) := by decide +kernel
  obtain ⟨r, stop, hplace, hnext, hiff⟩ :=
    (lineEnds_of_lex "a)\nb").2 hclean _ _ _ _ _ hsplit (by decide) (by simp) (by decide)
  obtain ⟨hfeed, hdepth, -⟩ := hiff.mp (List.cons_ne_nil _ _)
  exact ⟨hclean, r, stop, hplace, hnext, hfeed, hdepth⟩

end NativeInterface
