import NativeInterface.Proofs.ByteScan
import NativeInterface.Proofs.RoundTrip
import NativeInterface.Proofs.Boundaries

/-!
# Tokens in place

Behind blanks and comments the next byte says what is read, as the next character does: a lexeme of
ASCII characters (`run_kind?`), or one byte of a character that starts nothing. One turn of the loop
over the tokens is one step of the lexer (`Finishes.scanned`, `Finishes.stray`, `Finishes.atEnd`),
and each turn passes a byte, so the loop ends on every file with the tokens and the faults of its
text (`run_file`).
-/

namespace NativeInterface
open Token (Kind)
open Text (encode)

/-- The span of one byte. -/
theorem Span.between_next {p : Position} (hp : 1 ≤ p.column) :
    Span.between p ⟨p.line, p.column + 1⟩ = .point p.line p.column := by
  rw [Span.between, Nat.add_sub_cancel, Nat.max_eq_left hp]
  rfl

/-! ## Lexemes -/

namespace Lexeme.Reading

/-- The kind of the token or line end that a reading is. -/
def tokenKind? : Reading → Option Kind
  | lineFeed => some .newline
  | token k _ => some k
  | _ => none

/-- What is wrong with a lexeme whose characters are single bytes. -/
def faults : Reading → List LexFault
  | token _ fault => fault.toList
  | loneColon => [.loneColon]
  | stray c => [.unexpectedByte (UInt8.ofNat c.toNat)]
  | _ => []

end Lexeme.Reading

namespace Lexed.InPlace
open Lexeme (all scan isSpace isWord isDigitOrSeparator startsAtom nameTail unescape)

theorem ofByteChars_encode (cs : List Char) :
    Text.ofByteChars (Text.ofBytes (encode cs)) = String.ofList cs := by
  have hbytes : Text.toBytes (Text.ofBytes (encode cs)) = encode cs := by
    rw [Text.toBytes, Text.ofBytes, List.map_map]
    refine (List.map_congr_left fun b _ => ?_).trans (List.map_id _)
    change (byteChar b).toNat.toUInt8 = b
    rw [toNat_byteChar]
    exact UInt8.ofNat_toNat
  rw [Text.ofByteChars, hbytes, fromUTF8?_encode]

/-- The diagnostics of faults, behind those found before. -/
def reportAll (f : SourceFile) (found : Diagnostics) (faults : List (Located LexFault)) :
    Diagnostics :=
  (faults.map fun x => .inFile f x.cause.code x.cause.message x.span).foldl Diagnostics.push found

theorem total_reportAll (f : SourceFile) (found : Diagnostics)
    (faults : List (Located LexFault)) :
    (reportAll f found faults).total = found.total + faults.length := by
  rw [reportAll, Diagnostics.total_foldl_push, List.length_map]

/-- The state behind a lexeme. -/
def State.scanned (s : State) (text : List Char) (r : Lexeme.Reading) : State :=
  let stop := s.past (encode text)
  { stop with
    depth := (r.tokenKind?.map (·.depthAfter s.depth)).getD s.depth
    found := reportAll s.file s.found
      (r.faults.map (⟨·, .between s.position stop.position⟩)) }

section
variable {s : State} {turns : Nat} {c : Char} {cs : List Char}

/-- The rest of a lexeme that goes on while `p` holds, and its text. -/
theorem run_skipWhile_textFrom {p : Char → Bool} (hp : Bytewise p)
    (hahead : s.ahead = encode (c :: cs)) (hturns : (encode cs).length < turns) :
    (skipWhile p turns).run (s.past (encode [c])) =
        some ((), s.past (encode (c :: cs.takeWhile p))) ∧
      (s.past (encode (c :: cs.takeWhile p))).textFrom s.offset =
        String.ofList (c :: cs.takeWhile p) := by
  have hnext : (s.past (encode [c])).ahead = encode cs := State.ahead_past_encode hahead
  have hskip := run_skipWhile_encode hp hnext (by rwa [hnext])
  rw [State.past_encode] at hskip
  have hsplit : s.ahead = encode ((c :: cs.takeWhile p) ++ cs.dropWhile p) := by
    rw [List.cons_append, List.takeWhile_append_dropWhile, hahead]
  exact ⟨hskip, State.textFrom_past hsplit⟩

theorem run_integer (hahead : s.ahead = encode (c :: cs)) (hturns : (encode cs).length < turns) :
    ∃ k, (Lexeme.integer (c :: cs.takeWhile isDigitOrSeparator)).tokenKind? = some k ∧
      (integer turns s.offset s.position).run (s.past (encode [c])) =
        some (k, s.scanned (c :: cs.takeWhile isDigitOrSeparator)
          (Lexeme.integer (c :: cs.takeWhile isDigitOrSeparator))) := by
  obtain ⟨hskip, htext⟩ := run_skipWhile_textFrom isDigitOrSeparator_bytewise hahead hturns
  rw [integer, Outcome.run_bind hskip, Outcome.run_bind (a := State.textFrom _ _) rfl, htext,
    String.toList_ofList]
  unfold Lexeme.integer
  dsimp only
  cases Text.readDecimal ((c :: cs.takeWhile isDigitOrSeparator).filter (· ≠ '_')) with
  | none => exact ⟨_, rfl, rfl⟩
  | some n =>
    dsimp only
    by_cases hn : n ≤ Lexeme.maxInteger
    · rw [if_pos hn, Option.filter_some, if_pos (decide_eq_true hn)]
      exact ⟨_, rfl, rfl⟩
    · rw [if_neg hn, Option.filter_some, if_neg (by simpa using hn)]
      exact ⟨_, rfl, rfl⟩

theorem run_colon (hahead : s.ahead = encode (':' :: cs)) (hturns : (encode cs).length < turns) :
    (colon turns s.position).run (s.past (encode [':'])) =
      some ((Lexeme.colon cs).1.tokenKind?,
        s.scanned (':' :: (Lexeme.colon cs).2) (Lexeme.colon cs).1) := by
  have hnext : (s.past (encode [':'])).ahead = encode cs := State.ahead_past_encode hahead
  rw [colon, Outcome.run_bind (a := State.char? _) rfl]
  cases cs with
  | nil =>
    rw [State.char?, State.byte?_eq, hnext]
    rfl
  | cons c cs =>
    obtain ⟨d, hd⟩ : ∃ d, (s.past (encode [':'])).char? = some d := by
      obtain ⟨b, bs, hbytes⟩ := exists_utf8EncodeChar c
      exact ⟨byteChar b, by rw [State.char?, State.byte?_eq, hnext, Text.encode_cons, hbytes]; rfl⟩
    have hcolon : d = ':' ↔ c = ':' := by
      have h := State.char?_eq_some_iff hnext (d := ':') (by decide)
      rwa [hd, List.head?_cons, Option.some_inj, Option.some_inj] at h
    have hatom : startsAtom d = startsAtom c := by
      have h := State.any_char? hnext startsAtom_bytewise
      rwa [hd] at h
    rw [hd, Lexeme.colon]
    dsimp only
    by_cases hc : c = ':'
    · subst hc
      rw [if_pos (hcolon.mpr rfl), if_pos rfl]
      have hmove := State.advanced_of_ascii hnext (by decide)
      rw [State.past_encode] at hmove
      exact congrArg (fun s' => some (some Kind.colonColon, s')) hmove
    rw [if_neg fun h => hc (hcolon.mp h), if_neg hc, hatom]
    by_cases hstart : startsAtom c
    · have hword := isWord_of_startsAtom hstart
      have htail : nameTail (c :: cs) = c :: nameTail cs := by
        rw [nameTail, List.takeWhile_cons_of_pos hword, List.dropWhile_cons_of_pos hword]
        rfl
      have hname : (name turns (s.past (encode [':'])).offset).run (s.past (encode [':'])) =
          some (String.ofList (nameTail (c :: cs)),
            (s.past (encode [':'])).past (encode (nameTail (c :: cs)))) :=
        run_name [] hnext hturns
      rw [htail, State.past_encode] at hname
      rw [if_pos hstart, if_pos hstart, Outcome.run_bind (a := s.past (encode [':'])) rfl,
        Outcome.run_bind hname]
      rfl
    · rw [if_neg hstart, if_neg hstart]
      rfl

/-- The first character says what the lexeme is, and the rest is read as far as it goes. -/
theorem run_kind? (hahead : s.ahead = encode (c :: cs)) (hc : c.toNat < 128)
    (hspace : isSpace c = false) (hcomment : c ≠ '#') (hturns : (encode cs).length < turns) :
    (kind? turns s.offset s.position (UInt8.ofNat c.toNat)).run (s.past (encode [c])) =
      some ((scan c cs).1.tokenKind?, s.scanned (c :: (scan c cs).2) (scan c cs).1) := by
  have hnext : (s.past (encode [c])).ahead = encode cs := State.ahead_past_encode hahead
  rw [kind?, byteChar_ofNat hc, scan, if_neg (Bool.eq_false_iff.mp hspace), if_neg hcomment]
  dsimp only
  split
  · rfl
  split
  · obtain ⟨k, hk, hdepth, hrun⟩ := run_nameOrKey hahead hturns
    rw [Outcome.run_bind hrun, hk, State.scanned]
    change _ = some (some k, { s.past (encode _) with depth := k.depthAfter s.depth })
    rw [hdepth]
    rfl
  split
  · obtain ⟨hskip, htext⟩ := run_skipWhile_textFrom isWord_bytewise hahead hturns
    rw [Outcome.run_bind hskip, Outcome.run_bind (a := State.textFrom _ _) rfl, htext]
    rfl
  split
  · obtain ⟨k, hk, hrun⟩ := run_integer hahead hturns
    rw [Outcome.run_bind hrun, hk]
    rfl
  split
  · rw [Outcome.run_bind (run_literal hnext hturns), State.literalEnd_past, List.nil_append,
      ofByteChars_encode]
    unfold State.literalEnd
    dsimp only
    cases (Lexeme.literal cs).closed with
    | true => rfl
    | false => rfl
  split
  · rename_i hcolon
    subst hcolon
    exact run_colon hahead hturns
  cases Lexeme.punctuation? c with
  | some k => rfl
  | none => rfl

/-! ## Beyond ASCII -/

theorem utf8EncodeChar_beyond (hc : 128 ≤ c.toNat) :
    ∀ b ∈ String.utf8EncodeChar c, 128 ≤ b.toNat := by
  rcases Text.utf8EncodeChar_cases c with ⟨hlt, -⟩ | ⟨-, hbytes⟩
  · omega
  · exact hbytes

theorem punctuation?_beyond (hc : 128 ≤ c.toNat) : Lexeme.punctuation? c = none := by
  rw [Lexeme.punctuation?]
  all_goals exact ne_of_beyond hc (by decide)

theorem startsIdentifier_beyond (hc : 128 ≤ c.toNat) : Lexeme.startsIdentifier c = false := by
  rw [Lexeme.startsIdentifier, isLower_beyond hc, decide_eq_false (ne_of_beyond hc (by decide))]
  rfl

theorem scan_beyond (hc : 128 ≤ c.toNat) (cs : List Char) : scan c cs = (.stray c, []) := by
  rw [scan, if_neg (Bool.eq_false_iff.mp (isSpace_beyond hc)), if_neg (ne_of_beyond hc (by decide)),
    if_neg (ne_of_beyond hc (by decide)),
    if_neg (Bool.eq_false_iff.mp (startsIdentifier_beyond hc)),
    if_neg (Bool.eq_false_iff.mp (isUpper_beyond hc)),
    if_neg (Bool.eq_false_iff.mp (isDigit_beyond hc)), if_neg (ne_of_beyond hc (by decide)),
    if_neg (ne_of_beyond hc (by decide)), punctuation?_beyond hc]

theorem run_kind?_beyond {b : UInt8} (hb : 128 ≤ b.toNat) {start : Nat} {p : Position} :
    (kind? turns start p b).run s =
      some (none, s.reported (.unexpectedByte b) (.between p s.position)) := by
  rw [← toNat_byteChar] at hb
  rw [kind?, if_neg (ne_of_beyond hb (by decide)),
    if_neg (Bool.eq_false_iff.mp (startsIdentifier_beyond hb)),
    if_neg (Bool.eq_false_iff.mp (isUpper_beyond hb)),
    if_neg (Bool.eq_false_iff.mp (isDigit_beyond hb)), if_neg (ne_of_beyond hb (by decide)),
    if_neg (ne_of_beyond hb (by decide)), punctuation?_beyond hb]
  rfl

end

/-! ## Turns -/

section
variable {s s' s'' : State} {turns : Nat} {ts : List Token} {cs : List Char} {st : Lexed.State}
  {rest : List UInt8} {b : UInt8} {c : Char}

theorem token?_of_byte {k? : Option Kind} (hskip : (skipTrivia turns).run s = some ((), s'))
    (hahead : s'.ahead = b :: rest)
    (hkind : (kind? turns s'.offset s'.position b).run s'.advanced = some (k?, s'')) :
    (token? turns).run s =
      some (k?.map (⟨·, .between s'.position s''.position⟩), s'') := by
  rw [token?, Outcome.run_bind hskip, Outcome.run_bind (a := s') rfl, State.byte?_eq, hahead]
  change StateT.run (advance >>= fun _ => _) s' = _
  rw [Outcome.run_bind (a := ()) rfl, Outcome.run_bind hkind]
  cases k? with
  | none => rfl
  | some k => rfl

theorem token?_of_end (hskip : (skipTrivia turns).run s = some ((), s')) (hahead : s'.ahead = []) :
    (token? turns).run s =
      some (some ⟨.eof, .point s'.position.line s'.position.column⟩,
        if 0 < s'.depth then
          { s'.reported .unclosedBracket (.point s'.position.line s'.position.column) with
            depth := 0 }
        else s') := by
  rw [token?, Outcome.run_bind hskip, Outcome.run_bind (a := s') rfl, State.byte?_eq, hahead]
  dsimp only [List.head?_nil]
  split
  · rfl
  · rfl

theorem tokens_of_full (h : s.found.isFull) :
    (tokens (turns + 1) ts).run s = some (ts, s) := by
  rw [tokens, Outcome.run_bind (a := s) rfl, if_pos h]
  rfl

section
variable (hroom : ¬s.found.isFull)
include hroom

theorem tokens_of_none (htoken : (token? turns).run s = some (none, s')) :
    (tokens (turns + 1) ts).run s = (tokens turns ts).run s' := by
  rw [tokens, Outcome.run_bind (a := s) rfl, if_neg hroom, Outcome.run_bind htoken]

variable {t : Token} (htoken : (token? turns).run s = some (some t, s'))
include htoken

theorem tokens_of_joined (hk : t.kind = .newline) (hjoins : joinsLines s'.depth ts) :
    (tokens (turns + 1) ts).run s = (tokens turns ts).run s' := by
  rw [tokens, Outcome.run_bind (a := s) rfl, if_neg hroom, Outcome.run_bind htoken]
  dsimp only
  rw [Outcome.run_bind (a := s') rfl, if_pos ⟨hk, hjoins⟩]

theorem tokens_of_eof (hk : t.kind = .eof) :
    (tokens (turns + 1) ts).run s = some (ts ++ [t], s') := by
  rw [tokens, Outcome.run_bind (a := s) rfl, if_neg hroom, Outcome.run_bind htoken]
  dsimp only
  rw [Outcome.run_bind (a := s') rfl, if_neg (by rw [hk]; exact fun h => by cases h.1), if_pos hk]
  rfl

theorem tokens_of_token (hk : t.kind ≠ .eof)
    (hjoins : ¬(t.kind = .newline ∧ joinsLines s'.depth ts)) :
    (tokens (turns + 1) ts).run s = (tokens turns (ts ++ [t])).run s' := by
  rw [tokens, Outcome.run_bind (a := s) rfl, if_neg hroom, Outcome.run_bind htoken]
  dsimp only
  rw [Outcome.run_bind (a := s') rfl, if_neg hjoins, if_neg hk]

end

/-! ## The loop over the tokens -/

/-- A fault for each byte, column by column. -/
def strays (p : Position) (bs : List UInt8) : List (Located LexFault) :=
  bs.mapIdx fun i b => ⟨.unexpectedByte b, .point p.line (p.column + i)⟩

theorem strays_cons (p : Position) (b : UInt8) (bs : List UInt8) :
    strays p (b :: bs) = ⟨.unexpectedByte b, .point p.line p.column⟩ ::
      strays ⟨p.line, p.column + 1⟩ bs := by
  rw [strays, List.mapIdx_cons, strays]
  congr 1
  refine congrArg (bs.mapIdx ·) (funext fun i => funext fun b => ?_)
  rw [Nat.add_assoc, Nat.add_comm 1]

/-- What is read where the bytes `bs` are left of a character that starts nothing. -/
def resume (bs : List UInt8) (cs : List Char) (st : Lexed.State) : Lexed :=
  let found := (strays st.position bs).take st.budget
  Lexed.report found (layout (all cs)
    { st with
      position := ⟨st.position.line, st.position.column + found.length⟩
      budget := st.budget - found.length })

theorem resume_nil (cs : List Char) (st : Lexed.State) : resume [] cs st = layout (all cs) st := by
  have hfound : (strays st.position []).take st.budget = [] := List.take_nil
  rw [resume, hfound]
  rfl

theorem resume_cons (hbudget : st.budget ≠ 0) (b : UInt8) (bs : List UInt8) (cs : List Char) :
    resume (b :: bs) cs st =
      Lexed.report [⟨.unexpectedByte b, .point st.position.line st.position.column⟩]
        (resume bs cs
          { st with
            position := ⟨st.position.line, st.position.column + 1⟩
            budget := st.budget - 1 }) := by
  obtain ⟨budget, hsucc⟩ := Nat.exists_eq_succ_of_ne_zero hbudget
  rw [resume, strays_cons, hsucc, List.take_succ_cons, resume]
  dsimp only [Nat.succ_sub_one, List.length_cons]
  rw [Nat.add_right_comm, Nat.add_assoc, Nat.succ_sub_succ]
  rfl

theorem resume_char (hscan : scan c cs = (.stray c, [])) (hbudget : st.budget ≠ 0) :
    resume (String.utf8EncodeChar c) cs st = layout (all (c :: cs)) st := by
  rw [Lexeme.all_cons, hscan, layout, if_neg hbudget]
  rfl

theorem layout_of_full (ls : List Lexeme) (hbudget : st.budget = 0) :
    layout ls st = atEnd st.position := by
  cases ls with
  | nil => rw [layout, if_pos (.inl hbudget)]
  | cons l ls => rw [layout, if_pos hbudget]

/-- What the lexer is to go on with from a state behind the tokens `ts`. -/
def State.lexed (s : State) (ts : List Token) : Lexed.State :=
  ⟨s.position, s.depth, ts.getLast?.map (·.kind), Diagnostics.limit - s.found.total⟩

/-- A run that starts behind the tokens `ts` ends, and it adds what the lexer finds. -/
def Finishes (s : State) (ts : List Token) (r : Lexed) (run : Option (List Token × State)) : Prop :=
  ∃ s', run = some (ts ++ r.tokens, s') ∧ s'.found = reportAll s.file s.found r.faults

theorem Finishes.report {faults : List (Located LexFault)} {r : Lexed}
    {run : Option (List Token × State)} (h : Finishes s' ts r run) (hfile : s'.file = s.file)
    (hfound : s'.found = reportAll s.file s.found faults) :
    Finishes s ts (Lexed.report faults r) run := by
  obtain ⟨s'', hrun, hreports⟩ := h
  refine ⟨s'', hrun, ?_⟩
  rw [hreports, hfile, hfound, reportAll, reportAll, reportAll, Lexed.report, List.map_append,
    List.foldl_append]

theorem Finishes.cons {t : Token} {r : Lexed} {run : Option (List Token × State)}
    (h : Finishes s (ts ++ [t]) r run) : Finishes s ts (Lexed.cons t r) run := by
  obtain ⟨s', hrun, hreports⟩ := h
  exact ⟨s', by rw [hrun, List.append_assoc]; rfl, hreports⟩

theorem close_of_ne (hlast : ∀ t ∈ ts.getLast?, t.kind ≠ .eof) :
    (close ts).run s =
      some (ts ++ [⟨.eof, .point s.position.line s.position.column⟩], s) := by
  have hne : ¬ts.getLast?.any (·.kind = .eof) := by
    cases hts : ts.getLast? with
    | none => exact Bool.false_ne_true
    | some t => exact fun h => hlast t hts (of_decide_eq_true h)
  rw [close, if_neg hne]
  rfl

theorem close_of_eof {t : Token} (hk : t.kind = .eof) :
    (close (ts ++ [t])).run s = some (ts ++ [t], s) := by
  rw [close, if_pos (by rw [List.getLast?_concat]; exact decide_eq_true hk)]
  rfl

theorem run_bind_congr {α β : Type} {x y : Act α} {f : α → Act β} (h : x.run s = y.run s') :
    (x >>= f).run s = (y >>= f).run s' := by
  rw [StateT.run_bind, StateT.run_bind, h]

theorem joinsLines_eq (s : State) (ts : List Token) :
    (s.lexed ts).joinsLines = joinsLines s.depth ts := by
  rw [Lexed.State.joinsLines, joinsLines, State.lexed]
  cases ts.getLast? with
  | none => rfl
  | some t => rfl

theorem lexed_past (s : State) (cs : List Char) (ts : List Token) :
    (s.past (encode cs)).lexed ts =
      { s.lexed ts with position := s.position.after cs } := by
  rw [State.lexed, State.past, foldl_nextByte]
  rfl

theorem Skips.layout_eq {front rest : List Char} (h : Skips turns s front rest)
    (hbudget : (s.lexed ts).budget ≠ 0) :
    layout (all (front ++ rest)) (s.lexed ts) =
      layout (all rest) ((s.past (encode front)).lexed ts) := by
  rw [lexed_past]
  exact h.passed _ hbudget

theorem lexed_scanned (s : State) (text : List Char) (r : Lexeme.Reading) (ts : List Token) :
    (s.scanned text r).lexed ts =
      ⟨s.position.after text, (r.tokenKind?.map (·.depthAfter s.depth)).getD s.depth,
        ts.getLast?.map (·.kind), Diagnostics.limit - s.found.total - r.faults.length⟩ := by
  rw [State.lexed, State.scanned]
  dsimp only
  rw [total_reportAll, List.length_map, Nat.sub_add_eq, State.past, foldl_nextByte]

theorem one_le_column {p : Position} (hp : 1 ≤ p.column) (bs : List UInt8) :
    1 ≤ (bs.foldl nextByte p).column := by
  induction bs generalizing p with
  | nil => exact hp
  | cons b bs ih =>
    refine ih ?_
    rw [nextByte]
    split
    · exact Nat.le_refl 1
    · exact Nat.le_succ_of_le hp

/-- There is room for faults, and what is skipped in front of a token ends at `s'`. -/
structure Arrives (turns : Nat) (s s' : State) : Prop where
  room : ¬s.found.isFull
  skip : (skipTrivia turns).run s = some ((), s')
  file : s'.file = s.file
  found : s'.found = s.found
  column : 1 ≤ s'.position.column

theorem Arrives.budget (h : Arrives turns s s') (ts : List Token) : (s'.lexed ts).budget ≠ 0 := by
  intro hbudget
  refine h.room (decide_eq_true (Nat.le_of_sub_eq_zero ?_))
  rw [← h.found]
  exact hbudget

/-- One byte of a character that starts nothing. -/
theorem tokens_of_stray (h : Arrives turns s s') (hahead : s'.ahead = b :: rest)
    (hb : 128 ≤ b.toNat) :
    (tokens (turns + 1) ts).run s = (tokens turns ts).run
      ((s'.past [b]).reported (.unexpectedByte b)
        (.point s'.position.line s'.position.column)) := by
  have hspan : Span.between s'.position (s'.past [b]).position =
      .point s'.position.line s'.position.column := by
    have hone : ∀ b' ∈ [b], 128 ≤ b'.toNat := List.forall_mem_singleton.mpr hb
    rw [State.past]
    dsimp only
    rw [foldl_nextByte_beyond hone, List.length_singleton, Span.between_next h.column]
  have htoken := token?_of_byte h.skip hahead (run_kind?_beyond hb)
  rw [State.advanced_eq hahead, hspan] at htoken
  exact tokens_of_none h.room htoken

/-- A byte of a character that starts nothing is not skipped. -/
theorem skipTrivia_of_beyond (hahead : s.ahead = b :: rest) (hb : 128 ≤ b.toNat) :
    (skipTrivia (turns + 1)).run s = some ((), s) := by
  have hchar : s.char? = some (byteChar b) := by
    rw [State.char?, State.byte?_eq, hahead]
    rfl
  refine skipTrivia_of_done fun c hc => ?_
  obtain rfl := Option.some_inj.mp (hchar.symm.trans hc)
  rw [← toNat_byteChar] at hb
  exact ⟨isSpace_beyond hb, ne_of_beyond hb (by decide)⟩

/-- A turn over one byte of a character that starts nothing. -/
theorem Finishes.stray {bs : List UInt8} (h : Arrives turns s s')
    (hahead : s'.ahead = b :: (bs ++ encode cs)) (hb : 128 ≤ b.toNat)
    (hnext : ∀ {s'' : State}, s''.ahead = bs ++ encode cs → 1 ≤ s''.position.column →
      Finishes s'' ts (resume bs cs (s''.lexed ts)) ((tokens turns ts >>= close).run s'')) :
    Finishes s ts (resume (b :: bs) cs (s'.lexed ts))
      ((tokens (turns + 1) ts >>= close).run s) := by
  have hone : ∀ b' ∈ [b], 128 ≤ b'.toNat := List.forall_mem_singleton.mpr hb
  have hplace : (s'.past [b]).position = ⟨s'.position.line, s'.position.column + 1⟩ :=
    foldl_nextByte_beyond hone s'.position
  let next := (s'.past [b]).reported (.unexpectedByte b)
    (.point s'.position.line s'.position.column)
  have hlexed : next.lexed ts =
      { s'.lexed ts with
        position := ⟨s'.position.line, s'.position.column + 1⟩
        budget := (s'.lexed ts).budget - 1 } := by
    rw [State.lexed]
    change Lexed.State.mk (s'.past [b]).position _ _ _ = _
    rw [hplace]
    rfl
  rw [run_bind_congr (tokens_of_stray h hahead hb), resume_cons (h.budget ts)]
  have hfile' : next.file = s.file := h.file
  have hahead' : next.ahead = bs ++ encode cs := State.ahead_past hahead
  have hcolumn' : 1 ≤ next.position.column := by
    change 1 ≤ (s'.past [b]).position.column
    rw [hplace]
    exact Nat.le_add_left 1 _
  have hfinish := hnext hahead' hcolumn'
  rw [hlexed] at hfinish
  refine .report hfinish hfile' ?_
  rw [← h.file, ← h.found]
  rfl

theorem position_scanned (s : State) (text : List Char) (r : Lexeme.Reading) :
    (s.scanned text r).position = s.position.after text :=
  foldl_nextByte s.position text

theorem ahead_scanned (hahead : s.ahead = encode (c :: cs)) :
    (s.scanned (c :: (scan c cs).2) (scan c cs).1).ahead =
      encode (cs.drop (scan c cs).2.length) := by
  have hsplit := List.prefix_iff_eq_append.mp (Lexeme.scan_isPrefix c cs)
  refine State.ahead_past_encode ?_
  rw [hahead, List.cons_append, hsplit]

theorem found_scanned (s : State) (text : List Char) (r : Lexeme.Reading) :
    (s.scanned text r).found = reportAll s.file s.found
      (r.faults.map (⟨·, .between s.position (s.position.after text)⟩)) := by
  rw [State.scanned, State.past, foldl_nextByte]

theorem layout_of_stray (hc : c.toNat < 128) (hfeed : c ≠ '\n') (hscan : scan c cs = (.stray c, []))
    (hcolumn : 1 ≤ st.position.column) (hbudget : st.budget ≠ 0) :
    layout (all (c :: cs)) st =
      Lexed.report
        [⟨.unexpectedByte (UInt8.ofNat c.toNat), .between st.position (st.position.after [c])⟩]
        (layout (all cs)
          { st with position := st.position.after [c], budget := st.budget - 1 }) := by
  have hbytes : String.utf8EncodeChar c = [UInt8.ofNat c.toNat] := by
    rcases Text.utf8EncodeChar_cases c with ⟨-, hbytes⟩ | ⟨hle, -⟩
    · exact hbytes
    · omega
  have hafter : st.position.after [c] = ⟨st.position.line, st.position.column + 1⟩ := by
    rw [Position.after, List.foldl_cons, List.foldl_nil, Position.next, if_neg hfeed,
      ← String.length_utf8EncodeChar, hbytes, List.length_singleton]
  have hspan : Span.between st.position (st.position.after [c]) =
      .point st.position.line st.position.column := by
    rw [hafter, Span.between_next hcolumn]
  rw [← resume_char hscan hbudget, hbytes, resume_cons hbudget, resume_nil, hspan, hafter]

section
variable (h : Arrives turns s s')
include h

section
variable {text rest : List Char} {r : Lexeme.Reading} {ts' : List Token}

/-- A turn that ends behind a lexeme. -/
theorem Finishes.behind
    (hrun : (tokens (turns + 1) ts).run s = (tokens turns ts').run (s'.scanned text r))
    (hnext : Finishes (s'.scanned text r) ts'
      (layout (all rest) ((s'.scanned text r).lexed ts'))
      ((tokens turns ts' >>= close).run (s'.scanned text r))) :
    Finishes s ts'
      (Lexed.report (r.faults.map (⟨·, .between s'.position (s'.position.after text)⟩))
        (layout (all rest)
          ⟨s'.position.after text, (r.tokenKind?.map (·.depthAfter s'.depth)).getD s'.depth,
            ts'.getLast?.map (·.kind), (s'.lexed ts).budget - r.faults.length⟩))
      ((tokens (turns + 1) ts >>= close).run s) := by
  have hreports := found_scanned s' text r
  rw [h.file, h.found] at hreports
  rw [run_bind_congr hrun]
  rw [lexed_scanned] at hnext
  exact hnext.report h.file hreports

/-- A turn that adds a token. -/
theorem Finishes.token {t : Token}
    (hrun : (tokens (turns + 1) ts).run s = (tokens turns (ts ++ [t])).run (s'.scanned text r))
    (hnext : Finishes (s'.scanned text r) (ts ++ [t])
      (layout (all rest) ((s'.scanned text r).lexed (ts ++ [t])))
      ((tokens turns (ts ++ [t]) >>= close).run (s'.scanned text r))) :
    Finishes s ts
      (Lexed.report (r.faults.map (⟨·, .between s'.position (s'.position.after text)⟩))
        (Lexed.cons t (layout (all rest)
          ⟨s'.position.after text, (r.tokenKind?.map (·.depthAfter s'.depth)).getD s'.depth,
            some t.kind, (s'.lexed ts).budget - r.faults.length⟩)))
      ((tokens (turns + 1) ts >>= close).run s) := by
  have hfinish := Finishes.behind h hrun hnext
  rw [List.getLast?_concat] at hfinish
  exact hfinish.cons

end

/-- A turn over a lexeme. -/
theorem Finishes.scanned (hahead : s'.ahead = encode (c :: cs)) (hc : c.toNat < 128)
    (hspace : isSpace c = false) (hcomment : c ≠ '#') (hturns : (encode cs).length < turns)
    (hlast : ∀ t ∈ ts.getLast?, t.kind ≠ .eof)
    (hnext : ∀ {ts' : List Token}, (∀ t ∈ ts'.getLast?, t.kind ≠ .eof) →
      Finishes (s'.scanned (c :: (scan c cs).2) (scan c cs).1) ts'
      (layout (all (cs.drop (scan c cs).2.length))
      ((s'.scanned (c :: (scan c cs).2) (scan c cs).1).lexed ts'))
      ((tokens turns ts' >>= close).run (s'.scanned (c :: (scan c cs).2) (scan c cs).1))) :
    Finishes s ts (layout (all (c :: cs)) (s'.lexed ts))
      ((tokens (turns + 1) ts >>= close).run s) := by
  have hkind := run_kind? hahead hc hspace hcomment hturns
  rw [← State.advanced_of_ascii hahead hc] at hkind
  have htoken := token?_of_byte h.skip (hahead.trans (encode_ascii hc cs)) hkind
  rw [position_scanned] at htoken
  have hconcat {t : Token} (ht : t.kind ≠ .eof) : ∀ t' ∈ (ts ++ [t]).getLast?, t'.kind ≠ .eof := by
    rw [List.getLast?_concat]
    rintro t' ⟨⟩
    exact ht
  rcases hscan : scan c cs with ⟨r, tail⟩
  rw [hscan] at htoken hnext
  cases r with
  | blank =>
    cases Lexeme.scanned_of_scan hscan with
    | space hc => rw [hspace] at hc; cases hc
    | comment hc => exact absurd hc hcomment
  | lineFeed =>
    rw [Lexeme.all_cons, layout, if_neg (h.budget ts), hscan]
    dsimp only
    rw [joinsLines_eq]
    split
    · rename_i hjoins
      exact .behind h (tokens_of_joined h.room htoken rfl hjoins) (hnext hlast)
    · rename_i hjoins
      exact .token h
        (tokens_of_token h.room htoken (fun h => by cases h) fun h => hjoins h.2)
        (hnext (hconcat fun h => by cases h))
  | token k fault =>
    have hk := Lexeme.not_endsLine_of_scan hscan
    have heof : k ≠ .eof := fun h => by rw [h] at hk; cases hk
    have hline : k ≠ .newline := fun h => by rw [h] at hk; cases hk
    rw [Lexeme.all_cons, layout, if_neg (h.budget ts), hscan]
    dsimp only
    rw [List.length_map]
    exact .token h (tokens_of_token h.room htoken heof fun h => hline h.1)
      (hnext (hconcat heof))
  | loneColon =>
    rw [Lexeme.all_cons, layout, if_neg (h.budget ts), hscan]
    exact .behind h (tokens_of_none h.room htoken) (hnext hlast)
  | stray d =>
    obtain ⟨rfl, htail, hfeed⟩ := Lexeme.scan_stray (congrArg Prod.fst hscan)
    obtain rfl : tail = [] := by rw [← htail, hscan]
    rw [layout_of_stray hc hfeed hscan h.column (h.budget ts)]
    exact .behind h (tokens_of_none h.room htoken) (hnext hlast)

/-- The turn at the end of the file. -/
theorem Finishes.atEnd (hahead : s'.ahead = []) :
    Finishes s ts (layout [] (s'.lexed ts)) ((tokens (turns + 1) ts >>= close).run s) := by
  rw [Outcome.run_bind (tokens_of_eof h.room (token?_of_end h.skip hahead) rfl), close_of_eof rfl,
    layout]
  rcases Nat.eq_zero_or_pos s'.depth with hdepth | hdepth
  · rw [if_neg (Nat.not_lt.mpr (Nat.le_of_eq hdepth)), if_pos (.inr hdepth)]
    exact ⟨s', rfl, h.found⟩
  · have hopen : ¬((s'.lexed ts).budget = 0 ∨ (s'.lexed ts).depth = 0) :=
      not_or.mpr ⟨h.budget ts, Nat.ne_of_gt hdepth⟩
    rw [if_pos hdepth, if_neg hopen]
    refine ⟨_, rfl, ?_⟩
    rw [← h.file, ← h.found]
    rfl

end

/-- No more turns once the limit of faults is reached. -/
theorem Finishes.full (hroom : s.found.isFull) (hlast : ∀ t ∈ ts.getLast?, t.kind ≠ .eof)
    (bs : List UInt8) (cs : List Char) :
    Finishes s ts (resume bs cs (s.lexed ts)) ((tokens (turns + 1) ts >>= close).run s) := by
  have hbudget : (s.lexed ts).budget = 0 := Nat.sub_eq_zero_of_le (of_decide_eq_true hroom)
  rw [Outcome.run_bind (tokens_of_full hroom), close_of_ne hlast, resume, hbudget, List.take_zero,
    layout_of_full _ (Nat.sub_zero 0)]
  exact ⟨s, rfl, rfl⟩

/-- The lexer reads what is ahead of the cursor: the bytes `bs` that are left of a character that
starts nothing, and the characters `cs`. -/
theorem run_tokens {bs : List UInt8} (hbs : ∀ b ∈ bs, 128 ≤ b.toNat)
    (hahead : s.ahead = bs ++ encode cs) (hcolumn : 1 ≤ s.position.column)
    (hlast : ∀ t ∈ ts.getLast?, t.kind ≠ .eof) (hturns : s.ahead.length + 3 ≤ turns) :
    Finishes s ts (resume bs cs (s.lexed ts)) ((tokens turns ts >>= close).run s) := by
  induction turns generalizing s ts bs cs with
  | zero => omega
  | succ turns ih =>
  by_cases hroom : s.found.isFull
  · exact .full hroom hlast bs cs
  cases bs with
  | cons b bs =>
    -- One more byte of a character that was begun in an earlier turn.
    have hb := hbs b List.mem_cons_self
    obtain ⟨n, rfl⟩ : ∃ n, turns = n + 1 := ⟨turns - 1, by omega⟩
    have harrives : Arrives (n + 1) s s :=
      ⟨hroom, skipTrivia_of_beyond hahead hb, rfl, rfl, hcolumn⟩
    refine .stray harrives hahead hb fun hnext hcolumn' => ?_
    refine ih (fun b' hb' => hbs b' (List.mem_cons_of_mem b hb')) hnext hcolumn' hlast ?_
    rw [hahead, List.cons_append, List.length_cons] at hturns
    rw [hnext]
    omega
  | nil =>
    -- Blanks and comments are skipped in the same turn, so `rest` starts with a lexeme.
    obtain ⟨front, rest, rfl, hskips⟩ := exists_skips hahead (Nat.le_of_succ_le_succ hturns)
    have harrives : Arrives turns s (s.past (encode front)) :=
      ⟨hroom, hskips.run, rfl, rfl, one_le_column hcolumn _⟩
    have hbudget : (s.lexed ts).budget ≠ 0 := harrives.budget ts
    have hahead' : (s.past (encode front)).ahead = encode rest := State.ahead_past_encode hahead
    have hlength : (encode rest).length ≤ s.ahead.length := by
      rw [hahead, List.nil_append, Text.encode_append, List.length_append]
      exact Nat.le_add_left _ _
    rw [resume_nil, hskips.layout_eq hbudget]
    cases rest with
    | nil =>
      rw [all]
      exact .atEnd harrives hahead'
    | cons c rest =>
      obtain ⟨hspace, hcomment⟩ := hskips.stops c rfl
      by_cases hc : c.toNat < 128
      · rw [encode_ascii hc, List.length_cons] at hlength
        refine .scanned harrives hahead' hc hspace hcomment (by omega) hlast fun hlast' => ?_
        rw [← resume_nil]
        have hnext := ahead_scanned hahead'
        refine ih (fun b hb => by cases hb) hnext (one_le_column harrives.column _) hlast' ?_
        have hsplit := congrArg encode (List.take_append_drop (scan c rest).2.length rest)
        rw [← hsplit, Text.encode_append, List.length_append] at hlength
        rw [hnext]
        omega
      · have hle : 128 ≤ c.toNat := Nat.le_of_not_lt hc
        obtain ⟨b, bs, hbytes⟩ := exists_utf8EncodeChar c
        have hbeyond := utf8EncodeChar_beyond hle
        rw [hbytes] at hbeyond
        rw [Text.encode_cons, hbytes, List.cons_append] at hahead' hlength
        rw [List.length_cons] at hlength
        rw [← resume_char (scan_beyond hle rest) (harrives.budget ts), hbytes]
        refine .stray harrives hahead' (hbeyond b List.mem_cons_self) fun hnext hcolumn' => ?_
        refine ih (fun b' hb' => hbeyond b' (List.mem_cons_of_mem b hb')) hnext hcolumn' hlast ?_
        rw [hnext]
        omega

end

/-- The lexer in place ends on every file, and it gives the tokens of the text and its faults. -/
theorem run_file {f : SourceFile} {turns : Nat} (hturns : f.text.utf8ByteSize + 3 ≤ turns) :
    ∃ s, (file turns).run (.start f) = some ((lex f.text).tokens, s) ∧
      s.found = (lex f.text).diagnostics f := by
  have hahead : (State.start f).ahead = [] ++ encode f.text.toList := Text.bytes_eq_encode f.text
  have hbytes : (State.start f).ahead.length + 3 ≤ turns := hturns
  have hlast : ∀ t ∈ ([] : List Token).getLast?, t.kind ≠ .eof := fun t ht => by cases ht
  have hfinish := run_tokens (fun b hb => by cases hb) hahead (Nat.le_refl 1) hlast hbytes
  rw [resume_nil] at hfinish
  exact hfinish

end Lexed.InPlace
end NativeInterface
