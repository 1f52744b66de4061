import NativeInterface.Token.InPlace
import NativeInterface.Proofs.LineStarts
import NativeInterface.Proofs.Outcome
import NativeInterface.Proofs.SurfaceForm

/-!
# Loops over bytes

The bytes ahead of the cursor are those of some characters. A property that does not tell characters
beyond ASCII apart holds of a character as it holds of its bytes (`Bytewise`), so a loop over bytes
moves over whole characters, those that the loop over characters takes: blanks and comments
(`exists_skips`), names (`run_name`) and string literals (`run_literal`). Every loop ends, if it
may go round once for each byte ahead and once or twice more.
-/

namespace NativeInterface.Lexed.InPlace
open Text (encode)
open Lexeme (all scan isSpace isWord isDigitOrSeparator startsAtom nameTail unescape)
variable {c : Char} {st : Lexed.State} {p : Char → Bool}

/-! ## Bytes and characters -/

theorem toNat_byteChar (b : UInt8) : (byteChar b).toNat = b.toNat := by
  have hvalid : b.toNat.isValidChar := .inl (Nat.lt_trans b.toNat_lt (by decide))
  rw [byteChar, Char.ofNat, dif_pos hvalid]
  rfl

theorem byteChar_ofNat (hc : c.toNat < 128) : byteChar (UInt8.ofNat c.toNat) = c := by
  apply Char.toNat_inj.mp
  rw [toNat_byteChar, UInt8.toNat_ofNat']
  omega

theorem encode_ascii (hc : c.toNat < 128) (cs : List Char) :
    encode (c :: cs) = UInt8.ofNat c.toNat :: encode cs := by
  rcases Text.utf8EncodeChar_cases c with ⟨-, hbytes⟩ | ⟨hle, -⟩
  · rw [Text.encode_cons, hbytes]
    rfl
  · omega

theorem length_encode_cons (c : Char) (cs : List Char) :
    (encode (c :: cs)).length = (encode [c]).length + (encode cs).length := by
  rw [← List.singleton_append, Text.encode_append, List.length_append]

/-- The property does not tell characters beyond ASCII apart. -/
def Bytewise (p : Char → Bool) : Prop :=
  ∀ ⦃c d : Char⦄, 128 ≤ c.toNat → 128 ≤ d.toNat → p c = p d

/-- Such a property holds of a character as it holds of each of its bytes. -/
theorem Bytewise.byteChar_eq (hp : Bytewise p) {b : UInt8} (hb : b ∈ String.utf8EncodeChar c) :
    p (byteChar b) = p c := by
  rcases Text.utf8EncodeChar_cases c with ⟨hlt, hbytes⟩ | ⟨hle, hbytes⟩
  · rw [hbytes, List.mem_singleton] at hb
    rw [hb, byteChar_ofNat hlt]
  · exact hp (by rw [toNat_byteChar]; exact hbytes b hb) hle

theorem exists_utf8EncodeChar (c : Char) : ∃ b bs, String.utf8EncodeChar c = b :: bs :=
  List.exists_cons_of_ne_nil String.utf8EncodeChar_ne_nil

theorem Bytewise.takeWhile_encode (hp : Bytewise p) (cs : List Char) :
    (encode cs).takeWhile (fun b => p (byteChar b)) = encode (cs.takeWhile p) := by
  induction cs with
  | nil => rfl
  | cons c cs ih =>
    rw [Text.encode_cons, List.takeWhile_cons]
    by_cases hc : p c
    · rw [List.takeWhile_append_of_pos fun b hb => by rw [hp.byteChar_eq hb, hc], ih, if_pos hc,
        Text.encode_cons]
    · obtain ⟨b, bs, hbytes⟩ := exists_utf8EncodeChar c
      have hb : ¬p (byteChar b) := by
        rwa [hp.byteChar_eq (c := c) (by rw [hbytes]; exact List.mem_cons_self)]
      rw [hbytes, List.cons_append, List.takeWhile_cons, if_neg hb, if_neg hc]
      rfl

theorem isWord_of_startsAtom (h : startsAtom c) : isWord c := by
  rcases Bool.or_eq_true_iff.mp h with h | h
  · exact Bool.or_eq_true_iff.mpr (.inl (Bool.or_eq_true_iff.mpr (.inl h)))
  · exact Bool.or_eq_true_iff.mpr (.inr h)

section
variable {c : Char} (hc : 128 ≤ c.toNat)
include hc

theorem ne_of_beyond {d : Char} (hd : d.toNat < 128) : c ≠ d := by
  rintro rfl
  omega

theorem isUpper_beyond : c.isUpper = false := by
  rw [Bool.eq_false_iff]
  intro h
  have := (Lexeme.isUpper_iff_toNat.mp h).2
  omega

theorem isLower_beyond : c.isLower = false := by
  rw [Bool.eq_false_iff]
  intro h
  have := (Lexeme.isLower_iff_toNat.mp h).2
  omega

theorem isDigit_beyond : c.isDigit = false := by
  rw [Bool.eq_false_iff]
  intro h
  have := (Char.isDigit_iff_toNat.mp h).2
  have : '9'.toNat = 57 := rfl
  omega

theorem isSpace_beyond : isSpace c = false := by
  simp [isSpace, ne_of_beyond hc (d := ' ') (by decide), ne_of_beyond hc (d := '\t') (by decide),
    ne_of_beyond hc (d := '\r') (by decide)]

theorem isWord_beyond : isWord c = false := by
  rw [Lexeme.isWord_eq, isUpper_beyond hc, isLower_beyond hc, isDigit_beyond hc,
    decide_eq_false (ne_of_beyond hc (by decide))]
  rfl

theorem startsAtom_beyond : startsAtom c = false := by
  rw [Bool.eq_false_iff]
  intro h
  exact Bool.false_ne_true ((isWord_beyond hc).symm.trans (isWord_of_startsAtom h))

theorem isDigitOrSeparator_beyond : isDigitOrSeparator c = false := by
  rw [isDigitOrSeparator, isDigit_beyond hc, decide_eq_false (ne_of_beyond hc (by decide))]
  rfl

end

theorem Bytewise.of_eq {v : Bool} (h : ∀ {c : Char}, 128 ≤ c.toNat → p c = v) : Bytewise p :=
  fun _ _ hc hd => (h hc).trans (h hd).symm

theorem isSpace_bytewise : Bytewise isSpace := .of_eq isSpace_beyond

theorem isWord_bytewise : Bytewise isWord := .of_eq isWord_beyond

theorem startsAtom_bytewise : Bytewise startsAtom := .of_eq startsAtom_beyond

theorem isDigitOrSeparator_bytewise : Bytewise isDigitOrSeparator :=
  .of_eq isDigitOrSeparator_beyond

theorem line_bytewise : Bytewise (· ≠ '\n') :=
  .of_eq fun hc => decide_eq_true (ne_of_beyond hc (by decide))

theorem mark_bytewise : Bytewise fun c => c = '?' || c = '!' := .of_eq fun hc => by
  rw [decide_eq_false (ne_of_beyond hc (by decide)),
    decide_eq_false (ne_of_beyond hc (by decide))]

theorem fromUTF8?_encode (cs : List Char) :
    String.fromUTF8? ⟨(encode cs).toArray⟩ = some (String.ofList cs) := by
  have hbytes : (⟨(encode cs).toArray⟩ : ByteArray) = (String.ofList cs).toByteArray := by
    rw [String.toByteArray_ofList]
    apply ByteArray.ext
    apply Array.ext'
    exact List.toList_data_toByteArray.symm
  rw [hbytes, String.fromUTF8?, dif_pos (String.ofList cs).isValidUTF8]
  rfl

/-! ## Places -/

theorem foldl_nextByte_beyond {bs : List UInt8} (hbs : ∀ b ∈ bs, 128 ≤ b.toNat) (p : Position) :
    bs.foldl nextByte p = ⟨p.line, p.column + bs.length⟩ := by
  induction bs generalizing p with
  | nil => rfl
  | cons b bs ih =>
    obtain ⟨hb, hbs⟩ := List.forall_mem_cons.mp hbs
    have hne : b ≠ 10 := by
      rintro rfl
      exact absurd hb (by decide)
    rw [List.foldl_cons, ih hbs, nextByte, if_neg hne, List.length_cons]
    dsimp only
    rw [Nat.add_right_comm, Nat.add_assoc]

theorem foldl_nextByte_char (p : Position) (c : Char) :
    (String.utf8EncodeChar c).foldl nextByte p = p.next c := by
  by_cases hfeed : c = '\n'
  · subst hfeed
    rfl
  rcases Text.utf8EncodeChar_cases c with ⟨hlt, hbytes⟩ | ⟨hle, hbytes⟩
  · have hne : UInt8.ofNat c.toNat ≠ 10 := by
      intro h
      apply hfeed
      rw [← byteChar_ofNat hlt, h]
      rfl
    rw [Position.next, if_neg hfeed, ← String.length_utf8EncodeChar, hbytes, List.foldl_cons,
      nextByte, if_neg hne]
    rfl
  · rw [foldl_nextByte_beyond hbytes, Position.next, if_neg hfeed, String.length_utf8EncodeChar]

theorem foldl_nextByte (p : Position) (cs : List Char) :
    (encode cs).foldl nextByte p = p.after cs := by
  induction cs generalizing p with
  | nil => rfl
  | cons c cs ih =>
    rw [Text.encode_cons, List.foldl_append, foldl_nextByte_char, ih]
    rfl

/-! ## Moving over bytes -/

namespace State
variable {s : State}

def ahead (s : State) : List UInt8 := s.bytes.drop s.offset

/-- The cursor moved over bytes. -/
def past (s : State) (bs : List UInt8) : State :=
  { s with offset := s.offset + bs.length, position := bs.foldl nextByte s.position }

theorem past_past (s : State) (bs bs' : List UInt8) :
    (s.past bs).past bs' = s.past (bs ++ bs') := by
  rw [past, past, past, List.length_append, List.foldl_append, ← Nat.add_assoc]

theorem ahead_past {bs rest : List UInt8} (h : s.ahead = bs ++ rest) :
    (s.past bs).ahead = rest := by
  rw [ahead, past, ← List.drop_drop]
  change (s.ahead).drop bs.length = rest
  rw [h, List.drop_left]

theorem byte?_eq : s.byte? = s.ahead.head? := by
  rw [byte?, ahead, List.head?_drop]

theorem advanced_eq {b : UInt8} {rest : List UInt8} (h : s.ahead = b :: rest) :
    s.advanced = s.past [b] := by
  rw [advanced, byte?_eq, h]
  rfl

theorem advanced_of_nil (h : s.ahead = []) : s.advanced = s := by
  rw [advanced, byte?_eq, h]
  rfl

theorem textFrom_past {front rest : List Char} (h : s.ahead = encode (front ++ rest)) :
    (s.past (encode front)).textFrom s.offset = String.ofList front := by
  have hbytes : (s.bytes.take (s.offset + (encode front).length)).drop s.offset =
      encode front := by
    rw [List.drop_take, Nat.add_sub_cancel_left]
    change s.ahead.take _ = _
    rw [h, Text.encode_append, List.take_left]
  rw [textFrom, past]
  dsimp only
  rw [hbytes, fromUTF8?_encode]
  rfl

section
variable {cs : List Char} (h : s.ahead = encode cs)
include h

/-- The next byte as a character has the property if the next character has it. -/
theorem any_char? {p : Char → Bool} (hp : Bytewise p) : s.char?.any p = cs.head?.any p := by
  rw [char?, byte?_eq, h]
  cases cs with
  | nil => rfl
  | cons c cs =>
    obtain ⟨b, bs, hbytes⟩ := exists_utf8EncodeChar c
    rw [Text.encode_cons, hbytes]
    exact hp.byteChar_eq (c := c) (by rw [hbytes]; exact List.mem_cons_self)

theorem char?_eq_some_iff {d : Char} (hd : d.toNat < 128) :
    s.char? = some d ↔ cs.head? = some d := by
  rw [char?, byte?_eq, h]
  cases cs with
  | nil => exact Iff.rfl
  | cons c cs =>
    rw [List.head?_cons, Option.some_inj]
    rcases Text.utf8EncodeChar_cases c with ⟨hlt, -⟩ | ⟨hle, hbytes⟩
    · rw [encode_ascii hlt, List.head?_cons, Option.map_some, byteChar_ofNat hlt, Option.some_inj]
    · obtain ⟨b, bs, hsplit⟩ := exists_utf8EncodeChar c
      have hb : 128 ≤ (byteChar b).toNat := by
        rw [toNat_byteChar]
        exact hbytes b (by rw [hsplit]; exact List.mem_cons_self)
      rw [Text.encode_cons, hsplit, List.cons_append, List.head?_cons, Option.map_some,
        Option.some_inj]
      exact ⟨fun heq => by rw [heq] at hb; omega, fun heq => by rw [heq] at hle; omega⟩

end

theorem ahead_past_encode {front rest : List Char} (h : s.ahead = encode (front ++ rest)) :
    (s.past (encode front)).ahead = encode rest :=
  ahead_past (h.trans (Text.encode_append ..))

theorem past_encode (s : State) (front rest : List Char) :
    (s.past (encode front)).past (encode rest) = s.past (encode (front ++ rest)) := by
  rw [past_past, Text.encode_append]

section
variable {c : Char} {cs : List Char} (h : s.ahead = encode (c :: cs)) (hc : c.toNat < 128)
include h hc

theorem head?_of_ascii : s.ahead.head? = some (UInt8.ofNat c.toNat) := by
  rw [h, encode_ascii hc, List.head?_cons]

theorem char?_of_ascii : s.char? = some c := (char?_eq_some_iff h hc).mpr rfl

theorem advanced_of_ascii : s.advanced = s.past (encode [c]) := by
  rw [advanced_eq (h.trans (encode_ascii hc cs)), encode_ascii hc]
  rfl

theorem second?_eq_some_iff {d : Char} (hd : d.toNat < 128) :
    s.second? = some d ↔ cs.head? = some d := by
  have hnext : (s.past (encode [c])).ahead = encode cs := ahead_past_encode h
  rw [← char?_eq_some_iff hnext hd, encode_ascii hc]
  rfl

end

end State

/-! ## Loops -/

section
variable {s : State} {turns : Nat}

theorem skipWhile_of_pos {p : Char → Bool} (h : s.char?.any p) :
    (skipWhile p (turns + 1)).run s = (skipWhile p turns).run s.advanced := by
  rw [skipWhile, Outcome.run_bind (a := s.char?) rfl, if_pos h]
  rfl

theorem skipWhile_of_neg {p : Char → Bool} (h : ¬s.char?.any p) :
    (skipWhile p (turns + 1)).run s = some ((), s) := by
  rw [skipWhile, Outcome.run_bind (a := s.char?) rfl, if_neg h]
  rfl

theorem run_skipWhile (p : Char → Bool) (hturns : s.ahead.length < turns) :
    (skipWhile p turns).run s =
      some ((), s.past (s.ahead.takeWhile fun b => p (byteChar b))) := by
  induction turns generalizing s with
  | zero => omega
  | succ turns ih =>
    cases hahead : s.ahead with
    | nil =>
      rw [skipWhile_of_neg (by rw [State.char?, State.byte?_eq, hahead]; exact Bool.false_ne_true)]
      rfl
    | cons b rest =>
      have hnext : (s.past [b]).ahead = rest := State.ahead_past hahead
      have hchar : s.char? = some (byteChar b) := by
        rw [State.char?, State.byte?_eq, hahead]
        rfl
      by_cases hb : p (byteChar b)
      · have hleft : (s.past [b]).ahead.length < turns := by
          rw [hahead, List.length_cons] at hturns
          rw [hnext]
          omega
        rw [skipWhile_of_pos (by rw [hchar]; exact hb), State.advanced_eq hahead, ih hleft, hnext,
          State.past_past, List.takeWhile_cons, if_pos hb]
        rfl
      · rw [skipWhile_of_neg (by rw [hchar]; exact hb), List.takeWhile_cons, if_neg hb]
        rfl

theorem run_skipWhile_encode {p : Char → Bool} (hp : Bytewise p) {cs : List Char}
    (hahead : s.ahead = encode cs) (hturns : s.ahead.length < turns) :
    (skipWhile p turns).run s = some ((), s.past (encode (cs.takeWhile p))) := by
  rw [run_skipWhile p hturns, hahead, hp.takeWhile_encode]

/-! ## Blanks and comments -/

theorem skipTrivia_of_space {c : Char} (h : s.char? = some c) (hc : isSpace c) :
    (skipTrivia (turns + 1)).run s = (skipTrivia turns).run s.advanced := by
  rw [skipTrivia, Outcome.run_bind (a := s.char?) rfl, h]
  dsimp only
  rw [if_pos hc]
  rfl

theorem skipTrivia_of_comment {s' : State} (h : s.char? = some '#')
    (hrun : (skipWhile (· ≠ '\n') turns).run s = some ((), s')) :
    (skipTrivia (turns + 1)).run s = (skipTrivia turns).run s' := by
  rw [skipTrivia, Outcome.run_bind (a := s.char?) rfl, h]
  dsimp only
  rw [if_neg (by decide), if_pos rfl, Outcome.run_bind hrun]

theorem skipTrivia_of_done (h : ∀ c ∈ s.char?, isSpace c = false ∧ c ≠ '#') :
    (skipTrivia (turns + 1)).run s = some ((), s) := by
  rw [skipTrivia, Outcome.run_bind (a := s.char?) rfl]
  cases hchar : s.char? with
  | none => rfl
  | some c =>
    obtain ⟨hspace, hcomment⟩ := h c hchar
    dsimp only
    rw [if_neg (Bool.eq_false_iff.mp hspace), if_neg hcomment]
    rfl

end

theorem layout_of_blank {tail rest : List Char} (h : scan c (tail ++ rest) = (.blank, tail))
    (hbudget : st.budget ≠ 0) :
    layout (all (c :: (tail ++ rest))) st =
      layout (all rest) { st with position := st.position.after (c :: tail) } := by
  rw [Lexeme.all_cons, h, List.drop_left, layout, if_neg hbudget]

/-- Blanks are read one by one or all together. -/
theorem layout_of_space (hc : isSpace c) (cs : List Char) (hbudget : st.budget ≠ 0) :
    layout (all (c :: cs)) st = layout (all cs) { st with position := st.position.next c } := by
  have hblank {d : Char} (hd : isSpace d) (ds : List Char) (st : Lexed.State)
      (hbudget : st.budget ≠ 0) :
      layout (all (d :: ds)) st = layout (all (ds.dropWhile isSpace))
        { st with position := st.position.after (d :: ds.takeWhile isSpace) } := by
    have hscan : scan d (ds.takeWhile isSpace ++ ds.dropWhile isSpace) =
        (.blank, ds.takeWhile isSpace) := by
      rw [List.takeWhile_append_dropWhile, scan, if_pos hd]
    have h := layout_of_blank hscan hbudget
    rwa [List.takeWhile_append_dropWhile] at h
  rw [hblank hc cs st hbudget]
  cases cs with
  | nil => rfl
  | cons d ds =>
    by_cases hd : isSpace d
    · rw [hblank hd ds { st with position := st.position.next c } hbudget,
        List.dropWhile_cons_of_pos hd, List.takeWhile_cons_of_pos hd]
      rfl
    · rw [List.dropWhile_cons_of_neg hd, List.takeWhile_cons_of_neg hd]
      rfl

theorem layout_of_comment (cs : List Char) (hbudget : st.budget ≠ 0) :
    layout (all ('#' :: cs)) st = layout (all (cs.dropWhile (· ≠ '\n')))
      { st with position := st.position.after ('#' :: cs.takeWhile (· ≠ '\n')) } := by
  have hscan : scan '#' (cs.takeWhile (· ≠ '\n') ++ cs.dropWhile (· ≠ '\n')) =
      (.blank, cs.takeWhile (· ≠ '\n')) := by
    rw [List.takeWhile_append_dropWhile]
    rfl
  have h := layout_of_blank hscan hbudget
  rwa [List.takeWhile_append_dropWhile] at h

/-- The blanks and comments `front` before `rest` are skipped, and the lexer passes over them. -/
structure Skips (turns : Nat) (s : State) (front rest : List Char) : Prop where
  stops : ∀ c ∈ rest.head?, isSpace c = false ∧ c ≠ '#'
  run : (skipTrivia turns).run s = some ((), s.past (encode front))
  passed : ∀ st : Lexed.State, st.budget ≠ 0 → layout (all (front ++ rest)) st =
    layout (all rest) { st with position := st.position.after front }

section
variable {s : State} {turns : Nat} {front rest cs : List Char}

theorem Skips.done (hahead : s.ahead = encode rest)
    (hstops : ∀ c ∈ rest.head?, isSpace c = false ∧ c ≠ '#') : Skips (turns + 1) s [] rest where
  stops := hstops
  run := by
    have hany := State.any_char? hahead isSpace_bytewise
    refine skipTrivia_of_done fun c hc => ?_
    rw [Option.mem_def.mp hc, Option.any_some] at hany
    have hspace : rest.head?.any isSpace = false := by
      cases hrest : rest.head? with
      | none => rfl
      | some d => exact (hstops d hrest).1
    refine ⟨hany.trans hspace, ?_⟩
    rintro rfl
    exact (hstops '#' ((State.char?_eq_some_iff hahead (by decide)).mp hc)).2 rfl
  passed _ _ := rfl

theorem Skips.space {c : Char} (hahead : s.ahead = encode (c :: cs)) (hc : c.toNat < 128)
    (hspace : isSpace c) (h : Skips turns (s.past (encode [c])) front rest) :
    Skips (turns + 1) s (c :: front) rest where
  stops := h.stops
  run := by
    rw [skipTrivia_of_space (State.char?_of_ascii hahead hc) hspace,
      State.advanced_of_ascii hahead hc, h.run, State.past_encode]
    rfl
  passed st hbudget := by
    have hlayout := h.passed { st with position := st.position.next c } hbudget
    rw [List.cons_append, layout_of_space hspace _ hbudget, hlayout]
    rfl

theorem Skips.comment (hahead : s.ahead = encode ('#' :: cs)) (hturns : s.ahead.length < turns)
    (hcs : cs.dropWhile (· ≠ '\n') = front ++ rest)
    (h : Skips turns (s.past (encode ('#' :: cs.takeWhile (· ≠ '\n')))) front rest) :
    Skips (turns + 1) s (('#' :: cs.takeWhile (· ≠ '\n')) ++ front) rest where
  stops := h.stops
  run := by
    have hskip := run_skipWhile_encode line_bytewise hahead hturns
    rw [List.takeWhile_cons_of_pos (by decide)] at hskip
    rw [skipTrivia_of_comment (State.char?_of_ascii hahead (by decide)) hskip, h.run,
      State.past_encode]
  passed st hbudget := by
    have hlayout := h.passed
      { st with position := st.position.after ('#' :: cs.takeWhile (· ≠ '\n')) } hbudget
    rw [List.append_assoc, ← hcs, List.cons_append, List.takeWhile_append_dropWhile,
      layout_of_comment cs hbudget, hcs, hlayout, Position.after_append]

theorem exists_skips (hahead : s.ahead = encode cs) (hturns : s.ahead.length + 2 ≤ turns) :
    ∃ front rest, cs = front ++ rest ∧ Skips turns s front rest := by
  induction turns generalizing s cs with
  | zero => omega
  | succ turns ih =>
    cases cs with
    | nil => exact ⟨[], [], rfl, .done hahead fun c hc => by cases hc⟩
    | cons c cs =>
      by_cases hspace : isSpace c
      · have hascii : c.toNat < 128 := by
          by_contra hle
          rw [isSpace_beyond (Nat.le_of_not_lt hle)] at hspace
          cases hspace
        have hnext : (s.past (encode [c])).ahead = encode cs := State.ahead_past_encode hahead
        rw [hahead, encode_ascii hascii, List.length_cons] at hturns
        obtain ⟨front, rest, rfl, hskips⟩ := ih hnext (by rw [hnext]; omega)
        exact ⟨c :: front, rest, rfl, hskips.space hahead hascii hspace⟩
      by_cases hcomment : c = '#'
      · subst hcomment
        have hsplit : '#' :: cs = ('#' :: cs.takeWhile (· ≠ '\n')) ++ cs.dropWhile (· ≠ '\n') :=
          congrArg ('#' :: ·) List.takeWhile_append_dropWhile.symm
        have hbytes := hahead.trans (congrArg encode hsplit)
        have hlength := congrArg List.length hbytes
        rw [Text.encode_append, List.length_append, encode_ascii (by decide),
          List.length_cons] at hlength
        have hnext := State.ahead_past_encode hbytes
        obtain ⟨front, rest, hcs, hskips⟩ := ih hnext (by rw [hnext]; omega)
        refine ⟨('#' :: cs.takeWhile (· ≠ '\n')) ++ front, rest, ?_,
          hskips.comment hahead (by omega) hcs⟩
        rw [List.append_assoc, ← hcs, ← hsplit]
      · refine ⟨[], c :: cs, rfl, .done hahead ?_⟩
        rintro d ⟨⟩
        exact ⟨Bool.eq_false_iff.mpr hspace, hcomment⟩

end

/-! ## Names -/

section
variable {s : State} {turns : Nat} {cs : List Char} {b : UInt8} {c : Char}

theorem run_skipMark (hahead : s.ahead = encode cs) :
    skipMark.run s =
      some ((), s.past (encode (cs.head?.toList.filter fun c => c = '?' || c = '!'))) := by
  have hany := State.any_char? hahead mark_bytewise
  rw [skipMark, Outcome.run_bind (a := s.char?) rfl, hany]
  cases cs with
  | nil => rfl
  | cons c cs =>
    rw [List.head?_cons, Option.any_some, Option.toList_some, List.filter_singleton]
    by_cases hc : (c = '?' || c = '!') = true
    · have hascii : c.toNat < 128 := by
        rcases Bool.or_eq_true_iff.mp hc with hc | hc
        · rw [of_decide_eq_true hc]; decide
        · rw [of_decide_eq_true hc]; decide
      rw [if_pos hc, hc]
      exact congrArg (fun s' => some ((), s')) (State.advanced_of_ascii hahead hascii)
    · rw [if_neg hc, Bool.eq_false_iff.mpr hc]
      rfl

theorem run_name (front : List Char) (hahead : s.ahead = encode (front ++ cs))
    (hturns : (encode cs).length < turns) :
    (name turns s.offset).run (s.past (encode front)) =
      some (String.ofList (front ++ nameTail cs), s.past (encode (front ++ nameTail cs))) := by
  have hnext := State.ahead_past_encode hahead
  have hskip := run_skipWhile_encode isWord_bytewise hnext (by rwa [hnext])
  have hword : s.ahead = encode ((front ++ cs.takeWhile isWord) ++ cs.dropWhile isWord) := by
    rw [List.append_assoc, List.takeWhile_append_dropWhile, hahead]
  have hmark := run_skipMark (State.ahead_past_encode hword)
  rw [State.past_encode] at hskip hmark
  rw [name, Outcome.run_bind hskip, Outcome.run_bind hmark, List.append_assoc]
  obtain ⟨rest, hrest⟩ := Lexeme.nameTail_isPrefix cs
  have htext : s.ahead = encode ((front ++ nameTail cs) ++ rest) := by
    rw [List.append_assoc, hrest, hahead]
  rw [← State.textFrom_past htext]
  rfl

theorem run_nameOrKey (hahead : s.ahead = encode (c :: cs)) (hturns : (encode cs).length < turns) :
    ∃ k, (Lexeme.nameOrKey c cs).1 = .token k none ∧ (∀ n, k.depthAfter n = n) ∧
      (nameOrKey turns s.offset).run (s.past (encode [c])) =
        some (k, s.past (encode (c :: (Lexeme.nameOrKey c cs).2))) := by
  have hname := run_name [c] hahead hturns
  have hdrop := List.prefix_iff_eq_append.mp (Lexeme.nameTail_isPrefix cs)
  have hsplit : s.ahead = encode ((c :: nameTail cs) ++ cs.drop (nameTail cs).length) := by
    rw [List.cons_append, hdrop, hahead]
  have hnext := State.ahead_past_encode hsplit
  rw [nameOrKey, Outcome.run_bind hname, Outcome.run_bind (a := State.char? _) rfl,
    Outcome.run_bind (a := s.past (encode ([c] ++ nameTail cs))) rfl]
  unfold Lexeme.nameOrKey
  dsimp only
  split
  · rename_i rest hcolon
    rw [hcolon] at hnext
    have hchar := State.char?_of_ascii hnext (by decide)
    have hsecond := State.second?_eq_some_iff hnext (by decide) (d := ':') (by decide)
    split
    · rename_i hdouble
      rw [if_neg fun h => h.2 (hsecond.mpr hdouble)]
      exact ⟨_, rfl, fun _ => rfl, rfl⟩
    · rename_i hsingle
      rw [if_pos ⟨hchar, fun h => hsingle (hsecond.mp h)⟩]
      refine ⟨_, rfl, fun _ => rfl, ?_⟩
      have hmove := State.advanced_of_ascii hnext (by decide)
      rw [State.past_encode] at hmove
      exact congrArg (fun s' => some (Token.Kind.key _, s')) hmove
  · rename_i hother
    rw [if_neg fun h => ?_]
    · exact ⟨_, rfl, fun _ => rfl, rfl⟩
    · obtain ⟨rest, hrest⟩ := List.head?_eq_some_iff.mp
        ((State.char?_eq_some_iff hnext (by decide)).mp h.1)
      exact hother rest hrest

/-! ## Strings -/

/-- A byte that a string literal takes as it is. -/
def Plain (b : UInt8) : Prop := byteChar b ≠ '\n' ∧ byteChar b ≠ '"' ∧ byteChar b ≠ '\\'

theorem plain_of_beyond (hb : 128 ≤ b.toNat) : Plain b := by
  rw [← toNat_byteChar] at hb
  exact ⟨ne_of_beyond hb (by decide), ne_of_beyond hb (by decide), ne_of_beyond hb (by decide)⟩

theorem plain_of_char (hc : c ≠ '\n' ∧ c ≠ '"' ∧ c ≠ '\\') (hb : b ∈ String.utf8EncodeChar c) :
    Plain b := by
  rcases Text.utf8EncodeChar_cases c with ⟨hlt, hbytes⟩ | ⟨-, hbytes⟩
  · rw [hbytes, List.mem_singleton] at hb
    rw [Plain, hb, byteChar_ofNat hlt]
    exact hc
  · exact plain_of_beyond (hbytes b hb)

/-- A backslash changes the first byte of the character behind it, or none. -/
theorem utf8EncodeChar_unescape {bs : List UInt8} (h : String.utf8EncodeChar c = b :: bs) :
    String.utf8EncodeChar (unescape c) = unescapeByte b :: bs ∧ ∀ b' ∈ bs, Plain b' := by
  rcases Text.utf8EncodeChar_cases c with ⟨hlt, hbytes⟩ | ⟨hle, hbytes⟩
  · obtain ⟨rfl, rfl⟩ := List.cons.inj (h.symm.trans hbytes)
    refine ⟨?_, fun b' hb' => absurd hb' List.not_mem_nil⟩
    rw [unescape, unescapeByte, byteChar_ofNat hlt]
    split
    · rfl
    split
    · rfl
    · exact hbytes
  · rw [h] at hbytes
    obtain ⟨hb, hbs⟩ := List.forall_mem_cons.mp hbytes
    refine ⟨?_, fun b' hb' => plain_of_beyond (hbs b' hb')⟩
    rw [← toNat_byteChar] at hb
    rw [unescape, if_neg (ne_of_beyond hle (by decide)), if_neg (ne_of_beyond hle (by decide)),
      unescapeByte, if_neg (ne_of_beyond hb (by decide)), if_neg (ne_of_beyond hb (by decide)), h]

section
variable {p : Position} {buffer : List UInt8}

theorem literal_of_end (h : ∀ b ∈ s.ahead.head?, byteChar b = '\n') :
    (literal p (turns + 1) buffer).run s =
      some (buffer, s.reported .unterminatedString (.between p s.position)) := by
  rw [literal, Outcome.run_bind (a := s) rfl, State.byte?_eq]
  cases hhead : s.ahead.head? with
  | none => rfl
  | some b =>
    dsimp only
    rw [if_pos (h b hhead)]
    rfl

theorem literal_of_quote {b : UInt8} (h : s.ahead.head? = some b) (hb : byteChar b = '"') :
    (literal p (turns + 1) buffer).run s = some (buffer, s.advanced) := by
  rw [literal, Outcome.run_bind (a := s) rfl, State.byte?_eq, h]
  dsimp only
  rw [hb, if_neg (by decide), if_pos rfl]
  rfl

theorem literal_of_backslash {b : UInt8} (h : s.ahead.head? = some b) (hb : byteChar b = '\\') :
    (literal p (turns + 1) buffer).run s =
      (literal p turns (buffer ++ (s.advanced.byte?.map unescapeByte).toList)).run
        s.advanced.advanced := by
  rw [literal, Outcome.run_bind (a := s) rfl, State.byte?_eq, h]
  dsimp only
  rw [hb, if_neg (by decide), if_neg (by decide), if_pos rfl]
  rfl

/-- Plain bytes are taken one by one. -/
theorem run_literal_plain {bs rest : List UInt8} (hahead : s.ahead = bs ++ rest)
    (hbs : ∀ b ∈ bs, Plain b) :
    (literal p (turns + bs.length) buffer).run s =
      (literal p turns (buffer ++ bs)).run (s.past bs) := by
  induction bs generalizing s buffer with
  | nil =>
    rw [List.append_nil]
    rfl
  | cons b bs ih =>
    obtain ⟨⟨hfeed, hquote, hslash⟩, hbs⟩ := List.forall_mem_cons.mp hbs
    have hnext : (s.past [b]).ahead = bs ++ rest := State.ahead_past hahead
    have hstep : (literal p (turns + bs.length + 1) buffer).run s =
        (literal p (turns + bs.length) (buffer ++ [b])).run s.advanced := by
      rw [literal, Outcome.run_bind (a := s) rfl, State.byte?_eq, hahead]
      dsimp only [List.cons_append, List.head?_cons]
      rw [if_neg hfeed, if_neg hquote, if_neg hslash]
      rfl
    rw [List.length_cons, ← Nat.add_assoc, hstep, State.advanced_eq hahead, ih hnext hbs,
      State.past_past, List.append_assoc]
    rfl

/-- The state behind a string literal that starts at `p`. -/
def State.literalEnd (s : State) (p : Position) (body : Lexeme.Literal) : State :=
  let stop := s.past (encode body.text)
  if body.closed then stop else stop.reported .unterminatedString (.between p stop.position)

theorem State.literalEnd_past {s : State} {front : List Char} {body : Lexeme.Literal} :
    (s.past (encode front)).literalEnd p body =
      s.literalEnd p { body with text := front ++ body.text } := by
  rw [literalEnd, literalEnd, past_encode]

/-- A character as it is. -/
theorem run_literal_char {c : Char} {cs : List Char} (hahead : s.ahead = encode (c :: cs))
    (hc : c ≠ '\n' ∧ c ≠ '"' ∧ c ≠ '\\') :
    (literal p (turns + (encode [c]).length) buffer).run s =
      (literal p turns (buffer ++ encode [c])).run (s.past (encode [c])) := by
  have hone : encode [c] = String.utf8EncodeChar c := by
    rw [Text.encode_cons, Text.encode_nil, List.append_nil]
  rw [hone]
  exact run_literal_plain (hahead.trans (Text.encode_cons c cs)) fun b => plain_of_char hc

/-- A character behind a backslash. The backslash and the first byte of the character are passed in
one turn. -/
theorem run_literal_escape {c : Char} {cs : List Char}
    (hahead : s.ahead = encode ('\\' :: c :: cs)) :
    (literal p (turns + (encode [c]).length) buffer).run s =
      (literal p turns (buffer ++ encode [unescape c])).run (s.past (encode ['\\', c])) := by
  obtain ⟨b, bs, hbytes⟩ := exists_utf8EncodeChar c
  obtain ⟨hunescape, hbs⟩ := utf8EncodeChar_unescape hbytes
  have hone : encode [c] = b :: bs := by
    rw [Text.encode_cons, Text.encode_nil, List.append_nil, hbytes]
  have hvalue : encode [unescape c] = unescapeByte b :: bs := by
    rw [Text.encode_cons, Text.encode_nil, List.append_nil, hunescape]
  have hnext : (s.past (encode ['\\'])).ahead = b :: (bs ++ encode cs) := by
    have hchars : (s.past (encode ['\\'])).ahead = encode (c :: cs) :=
      State.ahead_past_encode hahead
    rw [hchars, Text.encode_cons, hbytes, List.cons_append]
  have hlater : ((s.past (encode ['\\'])).past [b]).ahead = bs ++ encode cs :=
    State.ahead_past hnext
  have hstate : ((s.past (encode ['\\'])).past [b]).past bs = s.past (encode ['\\', c]) := by
    rw [State.past_past, List.singleton_append, ← hone, State.past_encode]
    rfl
  rw [hone, List.length_cons, ← Nat.add_assoc,
    literal_of_backslash (State.head?_of_ascii hahead (by decide)) (by decide),
    State.advanced_of_ascii hahead (by decide), State.advanced_eq hnext, State.byte?_eq, hnext,
    run_literal_plain hlater hbs, hstate, hvalue, List.append_assoc]
  rfl

theorem run_literal {cs : List Char} (hahead : s.ahead = encode cs)
    (hturns : (encode cs).length < turns) :
    (literal p turns buffer).run s = some (buffer ++ encode (Lexeme.literal cs).value,
      s.literalEnd p (Lexeme.literal cs)) := by
  fun_induction Lexeme.literal cs generalizing s turns buffer with
  | case1 =>
    obtain _ | turns := turns
    · omega
    rw [literal_of_end (by rw [hahead]; exact fun b hb => by cases hb), Text.encode_nil,
      List.append_nil]
    rfl
  | case2 =>
    rw [encode_ascii (by decide)] at hturns
    obtain ⟨turns, rfl⟩ : ∃ n, turns = n + 2 := Nat.exists_eq_add_of_le' hturns
    have hnext : (s.past (encode ['\\'])).ahead = encode [] := State.ahead_past_encode hahead
    rw [literal_of_backslash (State.head?_of_ascii hahead (by decide)) (by decide),
      State.advanced_of_ascii hahead (by decide), State.advanced_of_nil hnext, State.byte?_eq,
      hnext, literal_of_end (by rw [hnext]; exact fun b hb => by cases hb)]
    rfl
  | case3 c cs tail =>
    rename_i ih
    have hnext : (s.past (encode ['\\', c])).ahead = encode cs := State.ahead_past_encode hahead
    rw [encode_ascii (by decide), List.length_cons, length_encode_cons] at hturns
    obtain ⟨turns, rfl⟩ : ∃ n, turns = n + (encode [c]).length :=
      Nat.exists_eq_add_of_le' (by omega)
    rw [run_literal_escape hahead, ih hnext (by omega), State.literalEnd_past, List.append_assoc,
      ← Text.encode_append]
    rfl
  | case4 cs hslash hslash' =>
    obtain _ | turns := turns
    · omega
    rw [literal_of_end (by rw [hahead, encode_ascii (by decide)]; rintro b ⟨⟩; rfl),
      Text.encode_nil, List.append_nil]
    rfl
  | case5 cs hslash hslash' hfeed =>
    obtain _ | turns := turns
    · omega
    rw [literal_of_quote (State.head?_of_ascii hahead (by decide)) (by decide),
      State.advanced_of_ascii hahead (by decide), Text.encode_nil, List.append_nil]
    rfl
  | case6 c cs hslash hslash' hfeed hquote tail =>
    rename_i ih
    have hplain : c ≠ '\n' ∧ c ≠ '"' ∧ c ≠ '\\' := by
      refine ⟨hfeed, hquote, ?_⟩
      rintro rfl
      cases cs with
      | nil => exact hslash rfl rfl
      | cons d ds => exact hslash' d ds rfl rfl
    have hnext : (s.past (encode [c])).ahead = encode cs := State.ahead_past_encode hahead
    rw [length_encode_cons] at hturns
    obtain ⟨turns, rfl⟩ : ∃ n, turns = n + (encode [c]).length :=
      Nat.exists_eq_add_of_le' (by omega)
    rw [run_literal_char hahead hplain, ih hnext (by omega), State.literalEnd_past,
      List.append_assoc, ← Text.encode_append]
    rfl

end

end

end NativeInterface.Lexed.InPlace
