import NativeInterface.Proofs.DiagnosticPlaces
import NativeInterface.Proofs.LineEnds
import NativeInterface.Proofs.LinesInPlace
import NativeInterface.Proofs.TokensInPlace

/-!
# Reading ends

Lexing ends on every file, and parsing on all tokens with an end of the file among them
(`reading_ends`). The number of turns and the depth of calls that are needed are bounded by the
length of what is read, and the number of faults by the limit of diagnostics, so none is left out.
Every loop of the parser notes each turn that goes round (`Parser.InPlace.Notes`), so what is known
of all events of a run is known of all turns.
-/

namespace NativeInterface

/-- No more diagnostics than the limit were counted, and all of them are stored. -/
structure Diagnostics.Complete (ds : Diagnostics) : Prop where
  total_le : ds.total ≤ limit
  length_stored : ds.stored.length = ds.total

theorem Diagnostics.complete_ofList {ds : List Diagnostic} (h : ds.length ≤ limit) :
    (ofList ds).Complete := by
  rw [ofList_of_le h]
  exact ⟨h, rfl⟩

theorem Lexed.complete_diagnostics (f : SourceFile) (text : String) :
    ((lex text).diagnostics f).Complete := by
  apply Diagnostics.complete_ofList
  rw [List.length_map]
  exact length_faults_le _ _

theorem Parsed.complete_diagnostics (f : SourceFile) (ts : List Token) :
    ((ofTokens ts).diagnostics f).Complete := by
  apply Diagnostics.complete_ofList
  rw [List.length_map]
  exact length_faults_le _ _

/-! ## Turns -/

namespace Parser.InPlace
open Token (Kind)

/-- A turn of a loop leaves it, whatever would come next, or goes round: then it notes so, and what
comes next goes on from there. -/
def Notes {α β : Type} (loop : Loop) (turn : (α → Act β) → Act β) : Prop :=
  ∀ s, (∃ left, ∀ again, (turn again).run s = left) ∨
    ∃ (s' : State) (a : α), ∀ again,
      (turn again).run s = (again a).run (s'.turned loop s.position)

theorem notes_lineEnds : Notes .lineEnds fun again => lineEndsTurn (again ()) := by
  intro s
  beta_reduce
  by_cases hkind : s.kind = .newline
  · refine .inr ⟨s.advanced, (), fun again => ?_⟩
    rw [lineEndsTurn, Outcome.run_bind (a := s.kind) rfl, if_pos hkind]
    rfl
  · refine .inl ⟨some ((), s), fun again => ?_⟩
    rw [lineEndsTurn, Outcome.run_bind (a := s.kind) rfl, if_neg hkind]
    rfl

theorem notes_skip (skipEnds : Act Unit) :
    Notes .skip fun again => skipTurn skipEnds (again ()) := by
  intro s
  beta_reduce
  by_cases hkind : s.kind = .eof
  · refine .inl ⟨some ((), s), fun again => ?_⟩
    rw [skipTurn, Outcome.run_bind (a := s.kind) rfl, if_neg (not_not_intro hkind)]
    rfl
  · by_cases hline : s.kind = .newline
    · refine .inl ⟨skipEnds.run s.advanced, fun again => ?_⟩
      rw [skipTurn, Outcome.run_bind (a := s.kind) rfl, if_pos hkind,
        Outcome.run_bind (a := s.position) rfl, Outcome.run_bind (run_eat hline), if_pos rfl]
    · refine .inr ⟨s.advanced, (), fun again => ?_⟩
      rw [skipTurn, Outcome.run_bind (a := s.kind) rfl, if_pos hkind,
        Outcome.run_bind (a := s.position) rfl, Outcome.run_bind (run_eat_of_ne hline),
        if_neg Bool.false_ne_true]
      rfl

theorem notes_declarations (line : Act (List Declaration)) (ds : List Declaration) :
    Notes .declarations fun again => declarationsTurn line ds again := by
  intro s
  beta_reduce
  by_cases hdone : s.kind = .eof ∨ s.found.isFull = true
  · refine .inl ⟨some (ds, s), fun again => ?_⟩
    rw [declarationsTurn, Outcome.run_bind (a := s.kind) rfl, Outcome.run_bind (a := s) rfl,
      if_pos hdone]
    rfl
  · cases hline : line.run s with
    | none =>
      refine .inl ⟨none, fun again => ?_⟩
      rw [declarationsTurn, Outcome.run_bind (a := s.kind) rfl, Outcome.run_bind (a := s) rfl,
        if_neg hdone, Outcome.run_bind (a := s.position) rfl]
      exact congrArg (Option.bind · _) hline
    | some found =>
      refine .inr ⟨found.2, ds ++ found.1, fun again => ?_⟩
      rw [declarationsTurn, Outcome.run_bind (a := s.kind) rfl, Outcome.run_bind (a := s) rfl,
        if_neg hdone, Outcome.run_bind (a := s.position) rfl, Outcome.run_bind hline]
      rfl

section
variable {α β : Type} (s : State)

/-- Work that has no result, or fails, leaves a loop. -/
theorem run_bind_cases (x : Attempt α) :
    (∃ left, ∀ f : α → Attempt β, (x >>= f).run.run s = left) ∨
      ∃ a s', ∀ f : α → Attempt β, (x >>= f).run.run s = (f a).run.run s' := by
  cases hx : x.run.run s with
  | none =>
    refine .inl ⟨none, fun f => ?_⟩
    change (StateT.run x.run s).bind _ = _
    rw [hx]
    rfl
  | some found =>
    obtain ⟨a, s'⟩ := found
    cases a with
    | none => exact .inl ⟨_, fun f => run_bind_of_none hx⟩
    | some a => exact .inr ⟨a, s', fun f => run_bind hx⟩

/-- A comma goes round, and anything else leaves. -/
theorem run_comma (loop : Loop) (start : Nat) (found : β) (again : β → Act (Option β)) :
    ((liftM (eat .comma) : Attempt Bool) >>= fun isComma =>
        if isComma then (do endTurn loop start; OptionT.mk (again found))
        else pure found).run.run s =
      if s.kind = .comma then (again found).run (s.advanced.turned loop start)
      else some (some found, s) := by
  split
  · rename_i hcomma
    rw [run_lift_bind (run_eat hcomma), if_pos rfl]
    rfl
  · rename_i hcomma
    rw [run_lift_bind (run_eat_of_ne hcomma), if_neg Bool.false_ne_true]
    rfl

end

theorem notes_segments (parts : List String) :
    Notes .segments fun again => (segmentsTurn parts fun a => OptionT.mk (again a)).run := by
  intro s
  beta_reduce
  cases hkind : s.kind with
  | segment part =>
    have hleave (h : ¬(s.advanced.kind = .dot ∧ ∃ next, s.advanced.secondKind = .segment next))
        (again : List String → Act (Option (List String))) :
        (segmentsTurn parts fun a => OptionT.mk (again a)).run.run s =
          some (some (parts ++ [part]), s.advanced) := by
      rw [segmentsTurn, run_place, run_kind, hkind]
      dsimp only
      rw [run_advance, run_kind, run_get, if_neg]
      · rfl
      · rintro ⟨hdot, hmatches⟩
        split at hmatches
        · rename_i next hnext
          exact h ⟨hdot, next, hnext⟩
        · cases hmatches
    by_cases h : s.advanced.kind = .dot ∧ ∃ next, s.advanced.secondKind = .segment next
    · obtain ⟨hdot, next, hnext⟩ := h
      refine .inr ⟨s.advanced.advanced, parts ++ [part], fun again => ?_⟩
      rw [segmentsTurn, run_place, run_kind, hkind]
      dsimp only
      rw [run_advance, run_kind, run_get, hnext, if_pos ⟨hdot, rfl⟩, run_advance, run_endTurn]
      rfl
    · exact .inl ⟨_, hleave h⟩
  | _ =>
    refine .inl ⟨(fail (.expectedName s.kind) : Attempt (List String)).run.run s, fun again => ?_⟩
    rw [segmentsTurn, run_place, run_kind, hkind]

theorem notes_item (loop : Loop) (expr keywords : Attempt Expr) (found : List Expr) :
    Notes loop fun again =>
      (itemTurn loop expr keywords found fun a => OptionT.mk (again a)).run := by
  intro s
  beta_reduce
  by_cases hkey : ∃ name, s.kind = .key name
  · obtain ⟨name, hkind⟩ := hkey
    refine .inl ⟨(keywords >>= fun e => pure (found ++ [e])).run.run s, fun again => ?_⟩
    rw [itemTurn, run_place, run_kind, hkind]
  · have hturn (again : List Expr → Act (Option (List Expr))) :
        (itemTurn loop expr keywords found fun a => OptionT.mk (again a)).run.run s =
          (expr >>= fun e => (liftM (eat .comma) : Attempt Bool) >>= fun isComma =>
            if isComma then (do endTurn loop s.position; OptionT.mk (again (found ++ [e])))
            else pure (found ++ [e])).run.run s := by
      rw [itemTurn, run_place, run_kind]
      split
      · rename_i name hkind
        exact absurd ⟨name, hkind⟩ hkey
      · rfl
    simp only [hturn]
    obtain ⟨left, hleft⟩ | ⟨e, s', hrun⟩ := run_bind_cases s expr
    · exact .inl ⟨left, fun again => hleft _⟩
    · simp only [hrun, run_comma]
      split
      · exact .inr ⟨s'.advanced, found ++ [e], fun again => rfl⟩
      · exact .inl ⟨_, fun again => rfl⟩

/-- A loop that is left in front of some tokens. -/
theorem Notes.unless {β : Type} {loop : Loop} (p : Kind → Prop) [DecidablePred p] (found : β)
    {turn : (β → Attempt β) → Attempt β}
    (h : Notes loop fun again => (turn fun a => OptionT.mk (again a)).run) :
    Notes loop fun again => (do
      if p (← kind) then return found else turn fun a => OptionT.mk (again a) : Attempt β).run := by
  intro s
  beta_reduce
  simp only [run_kind]
  by_cases hkind : p s.kind
  · exact .inl ⟨some (some found, s), fun again => by rw [if_pos hkind]; rfl⟩
  · simp only [if_neg hkind]
    exact h s

theorem notes_items (expr keywords : Attempt Expr) (close : Kind) (found : List Expr) :
    Notes .items fun again =>
      (itemsTurn expr keywords close found fun a => OptionT.mk (again a)).run :=
  (notes_item .items expr keywords found).unless (· = close) found

theorem notes_pairs (expr : Attempt Expr) (close : Kind) (found : List (Ident × Expr)) :
    Notes .pairs fun again => (pairsTurn expr close found fun a => OptionT.mk (again a)).run := by
  intro s
  beta_reduce
  cases hkind : s.kind with
  | key name =>
    obtain ⟨left, hleft⟩ | ⟨value, s', hrun⟩ := run_bind_cases s.advanced expr
    · refine .inl ⟨left, fun again => ?_⟩
      rw [pairsTurn, run_place, run_kind, hkind]
      dsimp only
      rw [run_span, run_advance, hleft]
    · let found' := found ++ [(⟨name, s.span⟩, value)]
      by_cases hend : s'.kind = close ∨ s'.kind.endsLine = true
      · refine .inl ⟨some (some found', s'), fun again => ?_⟩
        rw [pairsTurn, run_place, run_kind, hkind]
        dsimp only
        rw [run_span, run_advance, hrun, run_kind, run_kind, if_pos hend]
        rfl
      · have hturn (again : List (Ident × Expr) → Act (Option (List (Ident × Expr)))) :
            (pairsTurn expr close found fun a => OptionT.mk (again a)).run.run s =
              if s'.kind = .comma then (again found').run (s'.advanced.turned .pairs s.position)
              else some (some found', s') := by
          rw [pairsTurn, run_place, run_kind, hkind]
          dsimp only
          rw [run_span, run_advance, hrun, run_kind, run_kind, if_neg hend, run_comma]
        simp only [hturn]
        split
        · exact .inr ⟨s'.advanced, found', fun again => rfl⟩
        · exact .inl ⟨_, fun again => rfl⟩
  | _ =>
    refine .inl ⟨(fail (.expectedKey s.kind) : Attempt (List (Ident × Expr))).run.run s,
      fun again => ?_⟩
    rw [pairsTurn, run_place, run_kind, hkind]

theorem notes_payload (expr keywords : Attempt Expr) (found : List Expr) :
    Notes .payload fun again =>
      (payloadTurn expr keywords found fun a => OptionT.mk (again a)).run :=
  (notes_item .payload expr keywords found).unless (·.endsLine) found

end Parser.InPlace

/-! ## Runs -/

/-- Reading a file ends. The lexer gives its tokens, with an end of the file, and the parser gives
the declarations of all tokens with an end of the file. The cursor of the parser stays in front of
the first one, and each loop that goes round has moved it. All faults found are stored. -/
theorem reading_ends (f : SourceFile) :
    (∀ turns, f.text.utf8ByteSize + 3 ≤ turns → ∃ s,
      (Lexed.InPlace.file turns).run (.start f) = some ((lex f.text).tokens, s) ∧
        s.found = (lex f.text).diagnostics f ∧ s.found.Complete) ∧
    (∃ t ∈ (lex f.text).tokens, t.kind = .eof) ∧
    ∀ ts : List Token, (∃ t ∈ ts, t.kind = .eof) → ∀ calls, 8 * ts.length + 1 ≤ calls → ∃ s,
      (Parser.InPlace.file calls).run { file := f, tokens := ts } =
          some ((Parsed.ofTokens ts).declarations, s) ∧
        (∀ e ∈ s.events, e.Sound ts) ∧
        s.found = (Parsed.ofTokens ts).diagnostics f ∧ s.found.Complete := by
  refine ⟨?_, ?_, ?_⟩
  · intro turns hturns
    obtain ⟨s, hrun, hfound⟩ := Lexed.InPlace.run_file hturns
    exact ⟨s, hrun, hfound, hfound ▸ Lexed.complete_diagnostics f f.text⟩
  · obtain ⟨init, t, htokens, ht, -⟩ := (endsDeclarations_lex f.text).eof
    exact ⟨t, by rw [htokens]; exact List.mem_concat_self, ht⟩
  · intro ts heof calls hcalls
    obtain ⟨s, hrun, hfound, hsound⟩ := Parser.InPlace.run_file heof hcalls
    exact ⟨s, hrun, hsound, hfound, hfound ▸ Parsed.complete_diagnostics f ts⟩

/-- Tokens behind the first end of the file are not read. -/
theorem reading_ends_at_first_eof :
    let f : SourceFile := ⟨"clock.spec", "tick é (\n"⟩
    let ts : List Token := [⟨.identifier "tick", ⟨1, 1, 1, 4⟩⟩, ⟨.eof, ⟨1, 5, 1, 5⟩⟩,
      ⟨.identifier "tock", ⟨1, 6, 1, 9⟩⟩, ⟨.eof, ⟨1, 10, 1, 10⟩⟩]
    (f.text.utf8ByteSize + 3 ≤ 13 ∧ ∃ s,
      (Lexed.InPlace.file 13).run (.start f) = some ((lex f.text).tokens, s) ∧
        s.found.Complete) ∧
    ((∃ t ∈ ts, t.kind = .eof) ∧ ∃ s,
      (Parser.InPlace.file 33).run { file := f, tokens := ts } =
          some ((Parsed.ofTokens ts).declarations, s) ∧
        ∀ e ∈ s.events, e.Sound ts) := by
  intro f ts
  have hturns : f.text.utf8ByteSize + 3 ≤ 13 := by decide
  have heof : ∃ t ∈ ts, t.kind = .eof := ⟨⟨.eof, ⟨1, 5, 1, 5⟩⟩, by decide, rfl⟩
  obtain ⟨hlex, -, hparse⟩ := reading_ends f
  obtain ⟨s, hrun, -, hfound⟩ := hlex 13 hturns
  obtain ⟨s', hrun', hsound, -⟩ := hparse ts heof 33 (by decide)
  exact ⟨⟨hturns, s, hrun, hfound⟩, heof, s', hrun', hsound⟩

end NativeInterface
