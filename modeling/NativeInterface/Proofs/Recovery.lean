import NativeInterface.Proofs.ParserLine

/-!
# Recovery at line ends

What a line gives depends on no other line. The lines of a file give the declarations that each of
them gives alone, places included, and one fault of the same code for each line that fails alone,
up to the line at which the limit of faults is reached.
-/

namespace NativeInterface
open NativeInterface.Parser

/-! ## Streams of lines -/

/-- The tokens of the lines `ls`, with newlines behind each of them and perhaps in front of the
first, up to the end of the file. -/
inductive IsStream : List (List Token) → List Token → Prop
  | eof {stop : Token} : stop.kind = .eof → IsStream [] [stop]
  | newline {t : Token} {ls : List (List Token)} {ts : List Token} :
    t.kind = .newline → IsStream ls ts → IsStream ls (t :: ts)
  | line {l : List Token} {ls : List (List Token)} {ts : List Token} :
    l ≠ [] → (∀ t ∈ l, t.kind.endsLine = false) → (nextKind ts).endsLine → IsStream ls ts →
      IsStream (l :: ls) (l ++ ts)

namespace Parser

/-- Places are as they are, and what ends a line is not looked at. -/
def View.places : View where
  place := id
  kind _ := .eof
  merge ha hb := congrArg₂ Span.merge ha hb

theorem View.places_sameLine {l ts ts' : List Token} (hts : (nextKind ts).endsLine)
    (hts' : (nextKind ts').endsLine) : View.places.SameLine (l ++ ts) (l ++ ts') := by
  induction l with
  | nil => exact .stop hts hts' rfl
  | cons t l ih => exact .cons rfl rfl ih

end Parser

namespace Parsed

/-- What the line `l` gives in front of the end of a file. -/
def alone (stop : Token) (l : List Token) : Parsed := ofTokens (l ++ [stop])

/-- Whether the line `l` fails alone. -/
def fails (stop : Token) (l : List Token) : Bool := !(alone stop l).faults.isEmpty

def codes (r : Parsed) : List Code := r.faults.map (·.cause.code)

/-- The declarations, and the codes of the faults, are those of the lines `ls` one by one. -/
structure OneByOne (r : Parsed) (stop : Token) (ls : List (List Token)) : Prop where
  declarations : r.declarations = ls.flatMap fun l => (alone stop l).declarations
  codes : r.codes = ls.flatMap fun l => (alone stop l).codes

/-! ## One line -/

section
variable {l : List Token} {stop : Token} (hne : l ≠ [])
  (hline : ∀ t ∈ l, t.kind.endsLine = false) (hstop : stop.kind = .eof)
include hne hline hstop

theorem alone_eq : (∃ d, alone stop l = ⟨[d], []⟩) ∨ ∃ fault, alone stop l = ⟨[], [fault]⟩ := by
  obtain ⟨hok, herror⟩ := ofTokens_of_line hne hline hstop
  cases hread : line ⟨.point 1 1, l ++ [stop]⟩ with
  | ok x => exact .inl ⟨x.1, hok x.1 x.2 hread⟩
  | error fault => exact .inr ⟨fault, herror fault hread⟩

theorem length_faults_alone : (alone stop l).faults.length = if fails stop l then 1 else 0 := by
  unfold fails
  rcases alone_eq hne hline hstop with ⟨d, h⟩ | ⟨fault, h⟩ <;> rw [h] <;> rfl

/-- A line in front of others gives what it gives alone, and leaves the others as they are. -/
theorem lines_line {ts : List Token} (hts : (nextKind ts).endsLine) {budget : Nat}
    (hbudget : budget ≠ 0) :
    let rest := lines (budget - (alone stop l).faults.length) (skipNewlines ts)
    (lines budget (skipNewlines (l ++ ts))).declarations =
        (alone stop l).declarations ++ rest.declarations ∧
      (lines budget (skipNewlines (l ++ ts))).codes = (alone stop l).codes ++ rest.codes := by
  have hfirst : (nextKind (l ++ ts)).endsLine = false := by
    obtain ⟨t, l, rfl⟩ := List.exists_cons_of_ne_nil hne
    exact hline t List.mem_cons_self
  have heof : nextKind (l ++ ts) ≠ .eof := ne_of_endsLine hfirst rfl
  rw [skipNewlines_of_ne (ne_of_endsLine hfirst rfl)]
  obtain ⟨hok, herror⟩ := ofTokens_of_line hne hline hstop
  have hend : (nextKind [stop]).endsLine := by rw [nextKind_cons, hstop]; rfl
  have hsame : View.places.Same ⟨.point 1 1, l ++ ts⟩ ⟨.point 1 1, l ++ [stop]⟩ :=
    ⟨rfl, View.places_sameLine hts hend⟩
  have hagree := View.agree_line hsame
  generalize hx : line ⟨.point 1 1, l ++ ts⟩ = x at hagree
  generalize hy : line ⟨.point 1 1, l ++ [stop]⟩ = y at hagree
  cases hagree with
  | @ok x y hxy =>
    have hdecl : x.1 = y.1 := by
      rw [← Declaration.mapPlaces_id x.1, ← Declaration.mapPlaces_id y.1]
      exact hxy.1
    have hleft : x.2.val.ahead = ts := (ahead_of_line hx).trans (lineEnd_append hline hts)
    have halone : alone stop l = ⟨[x.1], []⟩ := (hok y.1 y.2 hy).trans (by rw [hdecl])
    rw [lines_of_ok hbudget heof hx, hleft, halone]
    exact ⟨rfl, rfl⟩
  | @error cause span cause' span' hcause =>
    have hcode : cause.code = cause'.code := by
      rw [← ParseFault.code_mapFound View.places.kind cause, hcause, ParseFault.code_mapFound]
    have halone : alone stop l = ⟨[], [⟨cause', span'⟩]⟩ := herror _ hy
    rw [lines_of_error hbudget heof hx, nextLine_append hline hts, halone]
    exact ⟨rfl, congrArg (· :: _) hcode⟩

end

/-! ## All lines -/

section
variable {stop : Token} (hstop : stop.kind = .eof) {ls : List (List Token)} {ts : List Token}
include hstop

theorem lines_of_isStream (h : IsStream ls ts) {budget : Nat}
    (hfew : ls.countP (fails stop) < budget) :
    (lines budget (skipNewlines ts)).OneByOne stop ls := by
  induction h generalizing budget with
  | eof heof =>
    rw [skipNewlines_of_ne (by simp [heof]), lines_of_eof heof]
    exact ⟨rfl, rfl⟩
  | newline hnewline _ ih =>
    rw [skipNewlines_cons hnewline]
    exact ih hfew
  | @line l ls ts hne hline hts _ ih =>
    have hlength := length_faults_alone hne hline hstop
    rw [List.countP_cons] at hfew
    have hfew' : ls.countP (fails stop) < budget - (alone stop l).faults.length := by omega
    have hrest := ih hfew'
    have hfirst := lines_line hne hline hstop hts (show budget ≠ 0 by omega)
    refine ⟨?_, ?_⟩
    · rw [hfirst.1, hrest.declarations, List.flatMap_cons]
    · rw [hfirst.2, hrest.codes, List.flatMap_cons]

/-- Reading stops behind the line that uses up the budget. -/
theorem lines_of_exhausted {ls done rest : List (List Token)} {l : List Token} (h : IsStream ls ts)
    (hls : ls = done ++ l :: rest) (hl : fails stop l) {budget : Nat}
    (hcount : done.countP (fails stop) + 1 = budget) :
    (lines budget (skipNewlines ts)).OneByOne stop (done ++ [l]) := by
  induction h generalizing budget done with
  | eof => simp at hls
  | newline hnewline _ ih =>
    rw [skipNewlines_cons hnewline]
    exact ih hls hcount
  | @line first ls ts hne hline hts _ ih =>
    have hlength := length_faults_alone hne hline hstop
    have hfirst := lines_line hne hline hstop hts (show budget ≠ 0 by omega)
    cases done with
    | nil =>
      obtain ⟨rfl, -⟩ := List.cons.inj hls
      have hspent : budget - (alone stop first).faults.length = 0 := by
        rw [hlength, if_pos hl, ← hcount]
        rfl
      rw [hspent, lines_zero] at hfirst
      refine ⟨?_, ?_⟩
      · rw [hfirst.1, List.nil_append, List.flatMap_singleton, List.append_nil]
      · rw [hfirst.2, List.nil_append, List.flatMap_singleton]
        exact List.append_nil _
    | cons x done =>
      obtain ⟨rfl, htail⟩ := List.cons.inj hls
      rw [List.countP_cons] at hcount
      have hcount' : done.countP (fails stop) + 1 =
          budget - (alone stop first).faults.length := by omega
      have hrest := ih htail hcount'
      refine ⟨?_, ?_⟩
      · rw [hfirst.1, hrest.declarations, List.cons_append, List.flatMap_cons]
      · rw [hfirst.2, hrest.codes, List.cons_append, List.flatMap_cons]

theorem OneByOne.length_faults {r : Parsed} (h : r.OneByOne stop ls)
    (hls : ∀ l ∈ ls, l ≠ [] ∧ ∀ t ∈ l, t.kind.endsLine = false) :
    r.faults.length = ls.countP (fails stop) := by
  have hcodes : r.codes.length = r.faults.length := List.length_map _
  rw [← hcodes, h.codes]
  clear h hcodes
  induction ls with
  | nil => rfl
  | cons l ls ih =>
    obtain ⟨hne, hline⟩ := hls l List.mem_cons_self
    have hrest := ih fun l' hl' => hls l' (List.mem_cons_of_mem _ hl')
    have hfirst : (alone stop l).codes.length = if fails stop l then 1 else 0 :=
      (List.length_map _).trans (length_faults_alone hne hline hstop)
    rw [List.flatMap_cons, List.length_append, hrest, hfirst, List.countP_cons, Nat.add_comm]

omit hstop in
theorem line_of_mem (h : IsStream ls ts) : ∀ l ∈ ls, l ≠ [] ∧ ∀ t ∈ l, t.kind.endsLine = false := by
  induction h with
  | eof => simp
  | newline _ _ ih => exact ih
  | line hne hline _ _ ih =>
    intro l hl
    rcases List.mem_cons.mp hl with rfl | hl
    · exact ⟨hne, hline⟩
    · exact ih l hl

end

/-- Lines are read independently. A line alone gives one declaration or one fault. While fewer than
`Diagnostics.limit` lines fail, a file gives the declarations of its lines, places included, and one
fault of the same code for each line that fails. Otherwise reading stops right behind the line that
reaches the limit, and gives what the lines up to that one give. -/
theorem ofTokens_of_isStream {ls : List (List Token)} {ts : List Token} {stop : Token}
    (hstop : stop.kind = .eof) (h : IsStream ls ts) :
    (∀ l ∈ ls, (∃ d, alone stop l = ⟨[d], []⟩) ∨ ∃ fault, alone stop l = ⟨[], [fault]⟩) ∧
    (ls.countP (fails stop) < Diagnostics.limit →
      (ofTokens ts).OneByOne stop ls ∧ (ofTokens ts).faults.length = ls.countP (fails stop)) ∧
    ∀ done l rest, ls = done ++ l :: rest → fails stop l →
      done.countP (fails stop) + 1 = Diagnostics.limit →
      (ofTokens ts).OneByOne stop (done ++ [l]) ∧
        (ofTokens ts).faults.length = Diagnostics.limit := by
  have hlines := line_of_mem h
  refine ⟨fun l hl => alone_eq (hlines l hl).1 (hlines l hl).2 hstop, fun hfew => ?_, ?_⟩
  · have hread := lines_of_isStream hstop h hfew
    exact ⟨hread, hread.length_faults hstop hlines⟩
  · intro done l rest hls hl hcount
    have hread := lines_of_exhausted hstop h hls hl hcount
    have hupto : ∀ l' ∈ done ++ [l], l' ∈ ls := by
      intro l' hl'
      rw [hls, List.append_cons]
      exact List.mem_append_left rest hl'
    refine ⟨hread, ?_⟩
    rw [ofTokens, hread.length_faults hstop fun l' hl' => hlines l' (hupto l' hl'),
      List.countP_append, List.countP_singleton, if_pos hl, hcount]

/-- A line that fails between two that do not, and a good line behind twenty that fail. -/
theorem ofTokens_of_isStream_broken :
    let good : List Token := [⟨.identifier "spec", .point 1 1⟩, ⟨.atom "a", .point 1 6⟩]
    let bad : List Token := [⟨.identifier "spec", .point 2 1⟩, ⟨.lbracket, .point 2 6⟩]
    let newline : Token := ⟨.newline, .point 1 8⟩
    let stop : Token := ⟨.eof, .point 9 1⟩
    let d : Declaration := ⟨⟨"spec", .point 1 1⟩, [.atom "a" (.point 1 6)], ⟨1, 1, 1, 6⟩⟩
    let short := newline :: (good ++ newline :: newline :: (bad ++ newline :: (good ++ [stop])))
    let long := (List.replicate Diagnostics.limit (bad ++ [newline])).flatten ++ (good ++ [stop])
    (IsStream [good, bad, good] short ∧ (ofTokens short).declarations = [d, d] ∧
      (ofTokens short).codes = [.unexpectedToken]) ∧
    IsStream (List.replicate Diagnostics.limit bad ++ [good]) long ∧
      (ofTokens long).declarations = [] ∧ (ofTokens long).faults.length = Diagnostics.limit := by
  intro good bad newline stop d short long
  have hgood : good ≠ [] ∧ ∀ t ∈ good, t.kind.endsLine = false := by decide
  have hbad : bad ≠ [] ∧ ∀ t ∈ bad, t.kind.endsLine = false := by decide
  have hlast : IsStream [good] (good ++ [stop]) := .line hgood.1 hgood.2 rfl (.eof rfl)
  have hbroken {ls : List (List Token)} {ts : List Token} (h : IsStream ls ts) :
      IsStream (bad :: ls) (bad ++ newline :: ts) := .line hbad.1 hbad.2 rfl (.newline rfl h)
  have hshort : IsStream [good, bad, good] short :=
    .newline rfl (.line hgood.1 hgood.2 rfl (.newline rfl (.newline rfl (hbroken hlast))))
  have hlong (n : Nat) : IsStream (List.replicate n bad ++ [good])
      ((List.replicate n (bad ++ [newline])).flatten ++ (good ++ [stop])) := by
    induction n with
    | zero => exact hlast
    | succ n ih => exact hbroken ih
  have halone : alone stop good = ⟨[d], []⟩ := by with_unfolding_all rfl
  have hfails : alone stop bad = ⟨[], [⟨.endOfDeclaration, .point 9 1⟩]⟩ := by
    with_unfolding_all rfl
  have hfail : fails stop bad := by rw [fails, hfails]; rfl
  have hstop : stop.kind = .eof := rfl
  refine ⟨⟨hshort, ?_⟩, hlong _, ?_⟩
  · have hfew : [good, bad, good].countP (fails stop) < Diagnostics.limit :=
      Nat.lt_of_le_of_lt List.countP_le_length (by decide)
    obtain ⟨hread, -⟩ := (ofTokens_of_isStream hstop hshort).2.1 hfew
    rw [hread.declarations, hread.codes]
    simp only [List.flatMap_cons, halone, hfails]
    exact ⟨rfl, rfl⟩
  · have hsplit : List.replicate Diagnostics.limit bad ++ [good] =
        List.replicate 19 bad ++ bad :: [good] := rfl
    have hcount : (List.replicate 19 bad).countP (fails stop) + 1 = Diagnostics.limit := by
      rw [List.countP_replicate, if_pos hfail]
      rfl
    obtain ⟨hread, hfaults⟩ :=
      (ofTokens_of_isStream hstop (hlong _)).2.2 _ _ _ hsplit hfail hcount
    refine ⟨hread.declarations.trans ?_, hfaults⟩
    rw [List.flatMap_eq_nil_iff]
    intro l hl
    obtain rfl : l = bad := by simpa using hl
    rw [hfails]

end Parsed

end NativeInterface
