import NativeInterface.Proofs.ParserInPlace

/-!
# Lines in place

A line is read or given up, and the next one starts where the parser says (`LineRead`, `run_line`).
So the loop over the lines ends, reads what `Parsed.lines` reads and reports the faults it finds, in
order, behind those reported before (`run_declarations`). Each turn leaves fewer tokens ahead.
-/

namespace NativeInterface.Parser.InPlace
open Token (Kind)

/-! ## Lines -/

theorem nextLine_of_inLine {front rest : List Token}
    (hfront : ∀ t ∈ front, t.kind.endsLine = false) : nextLine (front ++ rest) = nextLine rest := by
  induction front with
  | nil => rfl
  | cons t front ih =>
    obtain ⟨ht, hfront⟩ := List.forall_mem_cons.mp hfront
    rw [List.cons_append, nextLine, if_neg (ne_of_endsLine ht rfl), if_neg (ne_of_endsLine ht rfl),
      ih hfront]

section
variable {s : State} {calls : Nat} {found : List Declaration} {s' : State}

theorem skipNewlines_of_newline (h : s.kind = .newline) :
    (skipNewlines (calls + 1)).run s =
      (skipNewlines calls).run (s.advanced.turned .lineEnds s.position) := by
  change StateT.run (if s.kind = .newline then _ else _) s = _
  rw [if_pos h]
  rfl

theorem skipNewlines_of_ne (h : s.kind ≠ .newline) :
    (skipNewlines (calls + 1)).run s = some ((), s) := by
  change StateT.run (if s.kind = .newline then _ else _) s = _
  rw [if_neg h]
  rfl

theorem run_skipNewlines (hs : s.Ready) (hcalls : s.ahead.length ≤ calls) :
    ∃ s', (skipNewlines calls).run s = some ((), s') ∧ Moves s s' ∧ s'.found = s.found ∧
      s'.ahead = Parser.skipNewlines s.ahead := by
  induction calls generalizing s with
  | zero =>
    have := hs.length_ahead
    omega
  | succ calls ih =>
    have hlength := hs.length_ahead
    rw [hs.ahead_eq]
    by_cases hk : s.kind = .newline
    · have hmoves := Moves.advanced hs (by rw [hk]; exact fun h => by cases h)
      have hplace : s.position < s.advanced.position := by
        rw [hs.position_advanced]
        exact Nat.lt_succ_self _
      have hturn := hmoves.trans (Moves.turned hmoves.ready .lineEnds hplace)
      obtain ⟨s', hrun, hmoves', hfound, hahead⟩ := ih hturn.ready (by
        change s.advanced.ahead.length ≤ calls
        omega)
      refine ⟨s', ?_, hturn.trans hmoves', hfound.trans hs.found_advanced, ?_⟩
      · rw [skipNewlines_of_newline hk, hrun]
      · rw [hahead, skipNewlines_cons hk]
        rfl
    · exact ⟨s, skipNewlines_of_ne hk, .refl hs, rfl, by
        rw [Parser.skipNewlines_of_ne (by rw [nextKind_cons]; exact hk), hs.ahead_eq]⟩

theorem synchronize_of_eof (h : s.kind = .eof) :
    (synchronize (calls + 1)).run s = some ((), s) := by
  change StateT.run (if s.kind ≠ .eof then _ else _) s = _
  rw [if_neg (not_not.mpr h)]
  rfl

theorem synchronize_of_newline (h : s.kind = .newline) :
    (synchronize (calls + 1)).run s = (skipNewlines calls).run s.advanced := by
  change StateT.run (if s.kind ≠ .eof then _ else _) s = _
  rw [if_pos (by rw [h]; exact fun h => by cases h)]
  change (StateT.run (eat .newline) s).bind _ = _
  rw [run_eat h]
  rfl

theorem synchronize_of_ne (h : s.kind ≠ .eof) (h' : s.kind ≠ .newline) :
    (synchronize (calls + 1)).run s =
      (synchronize calls).run (s.advanced.turned .skip s.position) := by
  change StateT.run (if s.kind ≠ .eof then _ else _) s = _
  rw [if_pos h]
  change (StateT.run (eat .newline) s).bind _ = _
  rw [run_eat_of_ne h']
  rfl

theorem run_synchronize (hs : s.Ready) (hcalls : s.ahead.length ≤ calls) :
    ∃ s', (synchronize calls).run s = some ((), s') ∧ Moves s s' ∧ s'.found = s.found ∧
      s'.ahead = nextLine s.ahead := by
  induction calls generalizing s with
  | zero =>
    have := hs.length_ahead
    omega
  | succ calls ih =>
    have hlength := hs.length_ahead
    by_cases heof : s.kind = .eof
    · refine ⟨s, synchronize_of_eof heof, .refl hs, rfl, ?_⟩
      rw [hs.ahead_eq, nextLine, if_pos heof]
    have hmoves := Moves.advanced hs heof
    by_cases hk : s.kind = .newline
    · have hleft : s.advanced.ahead.length ≤ calls := by omega
      obtain ⟨s', hrun, hmoves', hfound, hahead⟩ := run_skipNewlines hmoves.ready hleft
      refine ⟨s', ?_, hmoves.trans hmoves', hfound.trans hs.found_advanced, ?_⟩
      · rw [synchronize_of_newline hk, hrun]
      · rw [hahead, hs.ahead_eq, nextLine, if_neg heof, if_pos hk]
    · have hplace : s.position < s.advanced.position := by
        rw [hs.position_advanced]
        exact Nat.lt_succ_self _
      have hturn := hmoves.trans (Moves.turned hmoves.ready .skip hplace)
      obtain ⟨s', hrun, hmoves', hfound, hahead⟩ := ih hturn.ready (by
        change s.advanced.ahead.length ≤ calls
        omega)
      refine ⟨s', ?_, hturn.trans hmoves', hfound.trans hs.found_advanced, ?_⟩
      · rw [synchronize_of_ne heof hk, hrun]
      · rw [hahead, hs.ahead_eq, nextLine, if_neg heof, if_neg hk]
        rfl

/-! ## The loop over the lines -/

/-- From one state to a later one over a line: what was found is what reading the line gives. -/
inductive LineRead (s s' : State) : Result Declaration ⟨.point 1 1, s.ahead⟩ →
    List Declaration → Prop
  | read {d e} (hahead : s'.ahead = Parser.skipNewlines e.val.ahead) (hsame : s'.found = s.found) :
    LineRead s s' (.ok (d, e)) [d]
  | failed {fault} (hahead : s'.ahead = nextLine s.ahead)
    (hsame : s'.found = (s.reported fault).found) : LineRead s s' (.error fault) []

theorem LineRead.length_lt (hs : s.Ready) (hk : s.kind ≠ .eof)
    {result : Result Declaration ⟨.point 1 1, s.ahead⟩} (h : LineRead s s' result found) :
    s'.ahead.length < s.ahead.length := by
  cases h with
  | @read d e hahead hsame =>
    rw [hahead]
    exact Nat.lt_of_le_of_lt (length_skipNewlines_le _) e.2
  | failed hahead hsame =>
    rw [hahead, hs.ahead_eq]
    exact length_nextLine_lt hk

/-- The diagnostics of faults, behind those found before. -/
def reports (f : SourceFile) (found : Diagnostics) (faults : List (Located ParseFault)) :
    Diagnostics :=
  (faults.map fun x => .inFile f x.cause.code x.cause.message x.span).foldl Diagnostics.push found

/-- The lines from one state on are the line that was read and the lines from the other on. -/
theorem LineRead.lines (h : LineRead s s' (Parser.line ⟨.point 1 1, s.ahead⟩) found) (hs : s.Ready)
    (hgoes : ¬(s.kind = .eof ∨ s.found.isFull = true)) :
    (Parsed.lines (Diagnostics.limit - s.found.total) s.ahead).declarations =
        found ++ (Parsed.lines (Diagnostics.limit - s'.found.total) s'.ahead).declarations ∧
      reports s.file s.found (Parsed.lines (Diagnostics.limit - s.found.total) s.ahead).faults =
        reports s.file s'.found
          (Parsed.lines (Diagnostics.limit - s'.found.total) s'.ahead).faults := by
  obtain ⟨hkind, hfull⟩ := not_or.mp hgoes
  have hroom : Diagnostics.limit - s.found.total ≠ 0 :=
    Nat.sub_ne_zero_of_lt (Nat.lt_of_not_le fun hle => hfull (decide_eq_true hle))
  have hnext : nextKind s.ahead ≠ .eof := by
    rw [hs.ahead_eq]
    exact hkind
  generalize hresult : Parser.line ⟨.point 1 1, s.ahead⟩ = result at h
  cases h with
  | read hahead hsame =>
    rw [Parsed.lines_of_ok hroom hnext hresult, hsame, hahead]
    exact ⟨rfl, rfl⟩
  | failed hahead hsame =>
    rw [Parsed.lines_of_error hroom hnext hresult, hsame, hahead]
    exact ⟨rfl, rfl⟩

/-- A line is given up, wherever in it the cursor stands. -/
theorem run_synchronize_of_passes (hpasses : Passes s s') (hcalls : s.ahead.length ≤ calls) :
    ∃ s'', (synchronize calls).run s' = some ((), s'') ∧ Moves s s'' ∧ s''.found = s'.found ∧
      s''.ahead = nextLine s.ahead := by
  obtain ⟨front, hfront, hinLine⟩ := hpasses.inLine
  obtain ⟨s'', hrun, hmoves, hsame, hahead⟩ :=
    run_synchronize hpasses.ready (Nat.le_trans hpasses.length_le hcalls)
  exact ⟨s'', hrun, hpasses.toMoves.trans hmoves, hsame, by
    rw [hahead, hfront, nextLine_of_inLine hinLine]⟩

theorem run_line (hs : s.Ready) (hnesting : s.nesting = 0) (hcalls : 8 * s.ahead.length ≤ calls) :
    ∃ s' found, (line calls).run s = some (found, s') ∧ Moves s s' ∧
      LineRead s s' (Parser.line ⟨.point 1 1, s.ahead⟩) found := by
  have hdecl := simulates_declaration (c := ⟨.point 1 1, s.ahead⟩) hs rfl hnesting hcalls
  generalize hrun : (declaration calls).run.run s = run at hdecl
  generalize hread : Parser.declaration ⟨.point 1 1, s.ahead⟩ = result at hdecl
  have hleft : s.ahead.length ≤ calls := by omega
  rw [line, Parser.line, hread]
  cases hdecl with
  | error hpasses hsame =>
    obtain ⟨s'', hskip, hmoves, hsame', hahead⟩ := run_synchronize_of_passes hpasses hleft
    refine ⟨s'', [], ?_, hmoves, .failed hahead (hsame'.trans hsame)⟩
    rw [Outcome.run_bind hrun]
    dsimp only
    rw [Outcome.run_bind hskip]
    rfl
  | @ok d _ e s' hfound hpasses hsame hcursor =>
    subst hfound
    have hahead := congrArg Cursor.ahead hcursor
    change ∃ s'' found, _ ∧ _ ∧ LineRead s s'' (if e.val.kind.endsLine = true then _ else _) found
    rw [Outcome.run_bind hrun, kind_eq hpasses.ready hahead]
    dsimp only
    rw [Outcome.run_bind (a := s'.kind) rfl]
    by_cases hend : s'.kind.endsLine
    · obtain ⟨s'', hskip, hmoves, hsame', hahead'⟩ :=
        run_skipNewlines hpasses.ready (Nat.le_trans hpasses.length_le hleft)
      rw [if_pos hend, if_pos hend, Outcome.run_bind hskip]
      exact ⟨s'', [d], rfl, hpasses.toMoves.trans hmoves,
        .read (by rw [hahead', hahead]; rfl) (hsame'.trans hsame)⟩
    · have hreported := Moves.reported hpasses.ready ⟨.expectedEnd s'.kind, s'.span⟩
      have hpasses' := hpasses.trans (.of_ahead hreported rfl)
      obtain ⟨s'', hskip, hmoves, hsame', hahead'⟩ := run_synchronize_of_passes hpasses' hleft
      have hreport : (report ⟨.expectedEnd s'.kind, s'.span⟩).run s' =
          some ((), s'.reported ⟨.expectedEnd s'.kind, s'.span⟩) := rfl
      refine ⟨s'', [], ?_, hmoves, ?_⟩
      · rw [if_neg hend, Outcome.run_bind (a := s'.kind) rfl, Outcome.run_bind (a := s'.span) rfl,
          Outcome.run_bind hreport, Outcome.run_bind hskip]
        rfl
      · rw [if_neg hend, Cursor.fault, span_eq hpasses.ready hahead]
        refine .failed hahead' (hsame'.trans ?_)
        rw [State.reported, State.reported, hsame, hpasses.file]

theorem declarations_of_done (h : s.kind = .eof ∨ s.found.isFull = true) (ds : List Declaration) :
    (declarations (calls + 1) ds).run s = some (ds, s) := by
  rw [declarations, declarationsTurn, Outcome.run_bind (a := s.kind) rfl,
    Outcome.run_bind (a := s) rfl, if_pos h]
  rfl

theorem declarations_of_line (h : ¬(s.kind = .eof ∨ s.found.isFull = true))
    (hline : (line calls).run s = some (found, s')) (ds : List Declaration) :
    (declarations (calls + 1) ds).run s =
      (declarations calls (ds ++ found)).run (s'.turned .declarations s.position) := by
  rw [declarations, declarationsTurn, Outcome.run_bind (a := s.kind) rfl,
    Outcome.run_bind (a := s) rfl, if_neg h, Outcome.run_bind (a := s.position) rfl,
    Outcome.run_bind hline]
  rfl

theorem run_declarations (hs : s.Ready) (hnesting : s.nesting = 0)
    (hcalls : 8 * s.ahead.length + 1 ≤ calls) (ds : List Declaration) :
    ∃ s', (declarations calls ds).run s = some
        (ds ++ (Parsed.lines (Diagnostics.limit - s.found.total) s.ahead).declarations, s') ∧
      Moves s s' ∧
      s'.found = reports s.file s.found
        (Parsed.lines (Diagnostics.limit - s.found.total) s.ahead).faults := by
  induction calls generalizing s ds with
  | zero => omega
  | succ calls ih =>
    by_cases hdone : s.kind = .eof ∨ s.found.isFull = true
    · have hlines : Parsed.lines (Diagnostics.limit - s.found.total) s.ahead = {} := by
        rcases hdone with heof | hfull
        · rw [hs.ahead_eq, Parsed.lines_of_eof heof]
        · rw [Nat.sub_eq_zero_of_le (of_decide_eq_true hfull), Parsed.lines_zero]
      rw [hlines, declarations_of_done hdone]
      exact ⟨s, by rw [List.append_nil], .refl hs, rfl⟩
    · obtain ⟨s', found, hline, hmoves, hread⟩ :=
        run_line hs hnesting (Nat.le_of_succ_le_succ hcalls)
      have hlength := hread.length_lt hs (not_or.mp hdone).1
      obtain ⟨hdeclarations, hfaults⟩ := hread.lines hs hdone
      have hturn := hmoves.trans
        (Moves.turned hmoves.ready .declarations (hmoves.lt_of_length hlength))
      obtain ⟨s'', hrun, hmoves', hreports⟩ := ih hturn.ready (hturn.nesting.trans hnesting)
        (by change 8 * s'.ahead.length + 1 ≤ calls; omega) (ds ++ found)
      rw [hturn.file] at hreports
      refine ⟨s'', ?_, hturn.trans hmoves', hreports.trans hfaults.symm⟩
      rw [declarations_of_line hdone hline, hrun, hdeclarations, List.append_assoc]
      rfl

end

/-- Reading in place ends, reads what the parser reads and finds what it finds. -/
theorem run_file {f : SourceFile} {ts : List Token} (heof : ∃ t ∈ ts, t.kind = .eof) {calls : Nat}
    (hcalls : 8 * ts.length + 1 ≤ calls) :
    ∃ s, (InPlace.file calls).run { file := f, tokens := ts } =
        some ((Parsed.ofTokens ts).declarations, s) ∧
      s.found = (Parsed.ofTokens ts).diagnostics f ∧ ∀ e ∈ s.events, e.Sound ts := by
  have hs : State.Ready { file := f, tokens := ts } := ⟨heof, Nat.zero_le _⟩
  have hleft : ts.length ≤ calls := by omega
  obtain ⟨s, hskip, hmoves, hsame, hahead⟩ := run_skipNewlines hs hleft
  have hleft' : 8 * s.ahead.length + 1 ≤ calls := by
    have hlength : s.ahead.length ≤ ts.length := hmoves.length_le
    omega
  obtain ⟨s', hrun, hmoves', hreports⟩ := run_declarations hmoves.ready hmoves.nesting hleft' []
  obtain ⟨es, hes, hsound⟩ := (hmoves.trans hmoves').events
  rw [hsame, hahead] at hrun hreports
  rw [hmoves.file] at hreports
  refine ⟨s', ?_, hreports, ?_⟩
  · rw [InPlace.file, Outcome.run_bind hskip]
    exact hrun
  · rw [hes]
    exact hsound

end NativeInterface.Parser.InPlace
