import NativeInterface.Proofs.SurfaceForm
import NativeInterface.Proofs.TokenPlaces

/-!
# Where tokens end

A token is read by its own text and by the character behind it, or the two characters behind it if
the first of them is a colon. So the text behind a token may change as long as it starts alike, and
it may always be replaced by nothing, a blank, a comment or a line feed (`Lexeme.scan_of_follows`).
-/

namespace NativeInterface
open Token (Kind)

namespace Lexeme

/-! ## What scanning finds -/

/-- What is found at the character `c` in front of the text `cs`, and how much of `cs` belongs to
it. -/
inductive Scanned (c : Char) (cs : List Char) : Reading → List Char → Prop
  | space : isSpace c → Scanned c cs .blank (cs.takeWhile isSpace)
  | comment : c = '#' → Scanned c cs .blank (cs.takeWhile (· ≠ '\n'))
  | feed : c = '\n' → Scanned c cs .lineFeed []
  | identifier : startsIdentifier c →
    Scanned c cs (.token (.identifier (String.ofList (c :: nameTail cs))) none) (nameTail cs)
  | key : startsIdentifier c →
    Scanned c cs (.token (.key (String.ofList (c :: nameTail cs))) none) (nameTail cs ++ [':'])
  | segment : c.isUpper → Scanned c cs
    (.token (.segment (String.ofList (c :: cs.takeWhile isWord))) none) (cs.takeWhile isWord)
  | integer {value : Int} {fault : Option LexFault} : c.isDigit →
    Scanned c cs (.token (.integer value) fault) (cs.takeWhile isDigitOrSeparator)
  | string : c = '"' → Scanned c cs (.token (.string (String.ofList (literal cs).value))
    (if (literal cs).closed then none else some .unterminatedString)) (literal cs).text
  | colonColon : c = ':' → Scanned c cs (.token .colonColon none) [':']
  | atom {d : Char} {rest : List Char} : c = ':' → startsAtom d → Scanned c cs
    (.token (.atom (String.ofList (d :: nameTail rest))) none) (d :: nameTail rest)
  | loneColon : c = ':' → Scanned c cs .loneColon []
  | mark {k : Kind} : punctuation? c = some k → Scanned c cs (.token k none) []
  | stray : Scanned c cs (.stray c) []

section
variable {c : Char} {k : Kind} {cs : List Char}

theorem scanned_nameOrKey (hc : startsIdentifier c) (cs : List Char) :
    Scanned c cs (nameOrKey c cs).1 (nameOrKey c cs).2 := by
  unfold nameOrKey
  dsimp only
  split
  · split
    · exact .identifier hc
    · exact .key hc
  · exact .identifier hc

theorem scanned_integer (hc : c.isDigit) (cs digits : List Char) :
    Scanned c cs (integer digits) (cs.takeWhile isDigitOrSeparator) := by
  unfold integer
  dsimp only
  split
  · split <;> exact .integer hc
  · exact .integer hc

theorem scanned_colon (cs : List Char) : Scanned ':' cs (colon cs).1 (colon cs).2 := by
  unfold colon
  split
  · split
    · exact .colonColon rfl
    · split
      · rename_i hatom
        exact .atom rfl hatom
      · exact .loneColon rfl
  · exact .loneColon rfl

theorem scanned (c : Char) (cs : List Char) : Scanned c cs (scan c cs).1 (scan c cs).2 := by
  fun_cases scan c cs with
  | case1 hspace => exact .space hspace
  | case2 _ hcomment => exact .comment hcomment
  | case3 _ _ hfeed => exact .feed hfeed
  | case4 _ _ _ hname => exact scanned_nameOrKey hname cs
  | case5 _ _ _ _ hupper => exact .segment hupper
  | case6 _ _ _ _ _ hdigit => exact scanned_integer hdigit cs _
  | case7 _ _ _ _ _ _ hquote => exact .string hquote
  | case8 _ _ _ _ _ _ _ hcolon =>
    subst hcolon
    exact scanned_colon cs
  | case9 _ _ _ _ _ _ _ _ _ hmark => exact .mark hmark
  | case10 => exact .stray

theorem scanned_of_scan {r : Reading} {tail : List Char} (h : scan c cs = (r, tail)) :
    Scanned c cs r tail := by
  have hs := scanned c cs
  rwa [h] at hs

theorem scan_mark (h : punctuation? c = some k) : scan c cs = (.token k none, []) := by
  unfold punctuation? at h
  split at h
  all_goals cases h
  all_goals rfl

end

/-! ## What may follow -/

/-- Nothing, or text that starts with a blank, a comment or a line feed. -/
def isGap : List Char → Bool
  | [] => true
  | c :: _ => isSpace c || c = '#' || c = '\n'

/-- `rest'` may stand behind a token in place of `rest`. -/
def Follows (rest rest' : List Char) : Prop :=
  isGap rest' ∨ rest'.head? = rest.head? ∧ (rest.head? = some ':' → rest'[1]? = rest[1]?)

theorem not_isWord_of_isGap {rest : List Char} (h : isGap rest) {c : Char} (hc : c ∈ rest.head?) :
    isWord c = false ∧ c ≠ '?' ∧ c ≠ '!' ∧ c ≠ ':' := by
  cases rest with
  | nil => cases hc
  | cons d rest =>
    cases hc
    simp only [isGap, isSpace, Bool.or_eq_true, decide_eq_true_eq] at h
    rcases h with (((rfl | rfl) | rfl) | rfl) | rfl <;> exact ⟨rfl, by decide, by decide, by decide⟩

theorem endsName_of_isGap {rest : List Char} (h : isGap rest) : endsName rest := by
  cases rest with
  | nil => rfl
  | cons c rest =>
    obtain ⟨hword, hquestion, hbang, -⟩ := not_isWord_of_isGap h (c := c) rfl
    simp [endsName, hword, hquestion, hbang]

section
variable {rest rest' : List Char}

theorem follows_nil : Follows rest [] := .inl rfl

/-- Texts that start with the same text, which is not a colon alone, may stand for each other. -/
theorem follows_append {text : List Char} (htext : text ≠ []) (hcolon : text ≠ [':']) :
    Follows (text ++ rest) (text ++ rest') := by
  right
  cases text with
  | nil => exact absurd rfl htext
  | cons c text =>
    refine ⟨rfl, ?_⟩
    intro hc
    cases text with
    | nil =>
      cases hc
      exact absurd rfl hcolon
    | cons d text => rfl

theorem Follows.head_eq_false {p : Char → Bool} (h : Follows rest rest')
    (hp : ∀ c, isWord c = false → p c = false) (hrest : ∀ c ∈ rest.head?, p c = false) :
    ∀ c ∈ rest'.head?, p c = false := by
  intro c hc
  rcases h with hgap | ⟨hhead, -⟩
  · exact hp c (not_isWord_of_isGap hgap hc).1
  · exact hrest c (hhead ▸ hc)

theorem Follows.ne_colon (h : Follows rest rest') (hrest : rest.head? ≠ some ':') :
    rest'.head? ≠ some ':' := by
  rcases h with hgap | ⟨hhead, -⟩
  · exact fun hc => (not_isWord_of_isGap hgap hc).2.2.2 rfl
  · rwa [hhead]

end

/-! ## Runs of characters -/

section
variable {p : Char → Bool} {tail rest rest' : List Char}

theorem takeWhile_append_eq_left_iff :
    (tail ++ rest).takeWhile p = tail ↔ (∀ c ∈ tail, p c) ∧ ∀ c ∈ rest.head?, p c = false := by
  constructor
  · intro h
    have htail : ∀ c ∈ tail, p c := by
      rw [← h]
      exact List.all_eq_true.mp List.all_takeWhile
    refine ⟨htail, ?_⟩
    rw [List.takeWhile_append_of_pos htail, List.append_right_eq_self] at h
    cases rest with
    | nil => simp
    | cons d rest =>
      rintro c ⟨⟩
      rw [Bool.eq_false_iff]
      intro hd
      rw [List.takeWhile_cons_of_pos hd] at h
      cases h
  · rintro ⟨htail, hrest⟩
    exact (takeWhile_of_head htail hrest).1

theorem takeWhile_of_follows (h : (tail ++ rest).takeWhile p = tail) (hrest : Follows rest rest')
    (hp : ∀ c, isWord c = false → p c = false) : (tail ++ rest').takeWhile p = tail := by
  rw [takeWhile_append_eq_left_iff] at h ⊢
  exact ⟨h.1, hrest.head_eq_false hp h.2⟩

end

/-! ## Names -/

section
variable {c : Char} {tail rest rest' : List Char}

theorem nameTail_of_head (h : nameTail (tail ++ rest) = tail) (hhead : rest'.head? = rest.head?) :
    nameTail (tail ++ rest') = tail := by
  obtain ⟨word, mark, hword, hmark, hsplit⟩ : IsNameTail tail := h ▸ isNameTail_nameTail _
  by_cases hnone : mark = []
  · -- the name is a word, which the next character does not go on with
    subst hnone
    rw [List.append_nil] at hsplit
    subst hsplit
    have hstop : ∀ d ∈ rest.head?, isWord d = false := by
      intro d hd
      rw [Bool.eq_false_iff]
      intro hgoes
      obtain ⟨rest, rfl⟩ : ∃ r, rest = d :: r := List.head?_eq_some_iff.mp hd
      have hlonger : ∀ x ∈ tail ++ [d], isWord x := by
        intro x hx
        rcases List.mem_append.mp hx with hx | hx
        · exact hword x hx
        · exact List.mem_singleton.mp hx ▸ hgoes
      have hlength := congrArg List.length h
      rw [nameTail, List.append_cons, List.takeWhile_append_of_pos hlonger] at hlength
      simp only [List.length_append, List.length_singleton] at hlength
      omega
    rw [nameTail_word hword hstop, List.append_right_eq_self] at h
    rw [nameTail_word hword (hhead ▸ hstop), hhead, h, List.append_nil]
  · -- a mark ends the name, whatever stands behind it
    subst hsplit
    obtain ⟨m, rfl, hm⟩ : ∃ m, mark = [m] ∧ (m = '?' ∨ m = '!') := by
      rcases hmark with rfl | rfl | rfl
      · exact absurd rfl hnone
      · exact ⟨'?', rfl, .inl rfl⟩
      · exact ⟨'!', rfl, .inr rfl⟩
    have hstop : ∀ d ∈ (m :: rest').head?, isWord d = false := by
      rintro d ⟨⟩
      rcases hm with rfl | rfl <;> rfl
    rw [List.append_assoc, List.singleton_append, nameTail_word hword hstop]
    rcases hm with rfl | rfl <;> rfl

theorem nameTail_of_follows (h : nameTail (tail ++ rest) = tail) (hrest : Follows rest rest') :
    nameTail (tail ++ rest') = tail := by
  rcases hrest with hgap | ⟨hhead, -⟩
  · exact nameTail_append (h ▸ isNameTail_nameTail _) (endsName_of_isGap hgap)
  · exact nameTail_of_head h hhead

/-- A name is an identifier unless a single colon follows it. -/
theorem nameOrKey_of_ne_colon (h : nameTail (tail ++ rest) = tail)
    (hrest : rest.head? = some ':' → rest[1]? = some ':') :
    nameOrKey c (tail ++ rest) = (.token (.identifier (String.ofList (c :: tail))) none, tail) := by
  rw [nameOrKey, h, List.drop_left]
  cases rest with
  | nil => rfl
  | cons d rest =>
    by_cases hd : d = ':'
    · subst hd
      have hsecond : rest.head? = some ':' := by
        rw [← hrest rfl, List.head?_eq_getElem?]
        rfl
      simp [hsecond]
    · simp [hd]

theorem nameOrKey_of_single_colon (h : nameTail (tail ++ ':' :: rest) = tail)
    (hrest : rest.head? ≠ some ':') :
    nameOrKey c (tail ++ ':' :: rest) =
      (.token (.key (String.ofList (c :: tail))) none, tail ++ [':']) := by
  rw [nameOrKey, h, List.drop_left]
  simp [hrest]

/-- A name is read as an identifier or as a key. -/
theorem nameOrKey_cases (cs : List Char) :
    (∃ rest, cs = nameTail cs ++ rest ∧ (rest.head? = some ':' → rest[1]? = some ':')) ∨
      ∃ rest, cs = nameTail cs ++ ':' :: rest ∧ rest.head? ≠ some ':' := by
  obtain ⟨rest, hrest⟩ := nameTail_isPrefix cs
  cases rest with
  | nil => exact .inl ⟨[], hrest.symm, nofun⟩
  | cons d rest =>
    by_cases hd : d = ':'
    · subst hd
      by_cases hsecond : rest.head? = some ':'
      · refine .inl ⟨':' :: rest, hrest.symm, ?_⟩
        intro
        rw [← hsecond, List.head?_eq_getElem?]
        rfl
      · exact .inr ⟨rest, hrest.symm, hsecond⟩
    · refine .inl ⟨d :: rest, hrest.symm, ?_⟩
      intro hcolon
      exact absurd (Option.some.inj hcolon) hd

theorem nameOrKey_of_follows {r : Reading} (h : nameOrKey c (tail ++ rest) = (r, tail))
    (hrest : Follows rest rest') : nameOrKey c (tail ++ rest') = (r, tail) := by
  rcases nameOrKey_cases (tail ++ rest) with ⟨rest₀, hsplit, hcolon⟩ | ⟨rest₀, hsplit, hcolon⟩
  · have hname : nameTail (nameTail (tail ++ rest) ++ rest₀) = nameTail (tail ++ rest) := by
      rw [← hsplit]
    have hread := nameOrKey_of_ne_colon (c := c) hname hcolon
    rw [← hsplit, h] at hread
    obtain ⟨rfl, htail⟩ := Prod.mk.inj hread
    rw [← htail] at hsplit hname ⊢
    obtain rfl := List.append_cancel_left hsplit
    refine nameOrKey_of_ne_colon (nameTail_of_follows hname hrest) ?_
    intro hcolon'
    rcases hrest with hgap | ⟨hhead, hsecond⟩
    · exact absurd rfl (not_isWord_of_isGap hgap hcolon').2.2.2
    · have hhead' := hhead.symm.trans hcolon'
      exact (hsecond hhead').trans (hcolon hhead')
  · have hname : nameTail (nameTail (tail ++ rest) ++ ':' :: rest₀) = nameTail (tail ++ rest) := by
      rw [← hsplit]
    have hread := nameOrKey_of_single_colon (c := c) hname hcolon
    rw [← hsplit, h] at hread
    obtain ⟨rfl, htail⟩ := Prod.mk.inj hread
    have hrest₀ : rest = rest₀ := by
      rw [List.append_cons, ← htail] at hsplit
      exact List.append_cancel_left hsplit
    subst hrest₀
    have hname' : nameTail (nameTail (tail ++ rest) ++ ':' :: rest') = nameTail (tail ++ rest) :=
      nameTail_of_head hname rfl
    have hkey := nameOrKey_of_single_colon (c := c) hname' (hrest.ne_colon hcolon)
    rw [List.append_cons, ← htail] at hkey
    exact hkey

end

/-! ## Other tokens -/

/-- A literal that is closed does not depend on what stands behind it. -/
theorem literal_append_of_closed {cs : List Char} (h : (literal cs).closed) (rest : List Char) :
    literal ((literal cs).text ++ rest) = literal cs := by
  fun_induction literal cs with
  | case1 | case2 | case4 => cases h
  | case3 c cs tail ih =>
    have htail := ih h
    dsimp only
    rw [List.cons_append, List.cons_append, literal]
    dsimp only [tail]
    rw [htail]
  | case5 => rfl
  | case6 c cs hback hback' hfeed hquote tail ih =>
    have htail := ih h
    have hbody (ds : List Char) : literal (c :: ds) =
        ⟨c :: (literal ds).value, c :: (literal ds).text, (literal ds).closed⟩ := by
      have hne : c ≠ '\\' := by
        rintro rfl
        cases cs with
        | nil => exact hback rfl rfl
        | cons d cs => exact hback' d cs rfl rfl
      simp [literal, hne, hfeed, hquote]
    dsimp only
    rw [List.cons_append, hbody]
    dsimp only [tail]
    rw [htail]

section
variable {c : Char} {k : Kind} {cs tail rest rest' : List Char}

theorem colon_ne_nil (h : colon cs = (.token k none, tail)) : tail ≠ [] := by
  rintro rfl
  unfold colon at h
  split at h
  · split at h
    · cases h
    · split at h <;> cases h
  · cases h

theorem colon_of_follows (h : colon (tail ++ rest) = (.token k none, tail))
    (hrest : Follows rest rest') : colon (tail ++ rest') = (.token k none, tail) := by
  cases tail with
  | nil => exact absurd rfl (colon_ne_nil h)
  | cons d tail =>
    rw [List.cons_append, colon] at h ⊢
    by_cases hd : d = ':'
    · rw [if_pos hd] at h ⊢
      exact h
    · rw [if_neg hd] at h ⊢
      by_cases hatom : startsAtom d
      · rw [if_pos hatom] at h ⊢
        dsimp only at h ⊢
        obtain ⟨hk, htail⟩ := Prod.mk.inj h
        have hname : nameTail (tail ++ rest) = tail := List.cons.inj htail |>.2
        rw [nameTail_of_follows hname hrest]
        rw [hname] at hk
        rw [hk]
      · rw [if_neg hatom] at h
        cases h

theorem closed_of_token {value : String} {body : Literal} (h : Reading.token (.string value)
    (if body.closed then none else some .unterminatedString) = .token k none) : body.closed := by
  by_contra hopen
  rw [if_neg hopen] at h
  cases h

theorem not_isDigitOrSeparator (h : isWord c = false) : isDigitOrSeparator c = false := by
  rw [isWord_eq] at h
  simp only [Bool.or_eq_false_iff] at h
  simp [isDigitOrSeparator, h.1.2, h.2]

/-- A token is read the same in front of any text that may follow it. -/
theorem scan_of_follows (h : scan c (tail ++ rest) = (.token k none, tail))
    (hrest : Follows rest rest') : scan c (tail ++ rest') = (.token k none, tail) := by
  -- only what `c` starts is taken from here; the text is settled by `h`
  obtain ⟨cs, t, fault, hs⟩ : ∃ cs t fault, Scanned c cs (.token k fault) t :=
    ⟨_, _, _, scanned_of_scan h⟩
  cases hs with
  | identifier hc | key hc =>
    rw [scan_identifier hc] at h ⊢
    exact nameOrKey_of_follows h hrest
  | segment hc =>
    rw [scan_upper hc] at h ⊢
    obtain ⟨hk, htail⟩ := Prod.mk.inj h
    rw [takeWhile_of_follows htail hrest fun _ hd => hd]
    rw [htail] at hk
    rw [hk]
  | integer hc =>
    rw [scan_digit hc] at h ⊢
    obtain ⟨hk, htail⟩ := Prod.mk.inj h
    rw [takeWhile_of_follows htail hrest fun _ => not_isDigitOrSeparator]
    rw [htail] at hk
    rw [hk]
  | string hc =>
    subst hc
    rw [scan_quote] at h ⊢
    obtain ⟨hk, htail⟩ := Prod.mk.inj h
    have hsame := literal_append_of_closed (closed_of_token hk) rest'
    rw [htail] at hsame
    rw [hsame, hk, htail]
  | colonColon hc | atom hc =>
    subst hc
    exact colon_of_follows h hrest
  | mark hk =>
    rw [scan_mark hk] at h ⊢
    exact h

end

/-! ## Shapes of texts -/

section
variable {c : Char} {k : Kind} {fault : Option LexFault} {cs tail : List Char}

theorem not_endsLine_of_punctuation (h : punctuation? c = some k) : k.endsLine = false := by
  unfold punctuation? at h
  split at h
  all_goals cases h
  all_goals rfl

/-- No text is read as a line end; these come from line feeds and from the end of the file. -/
theorem not_endsLine_of_scan (h : scan c cs = (.token k fault, tail)) : k.endsLine = false := by
  cases scanned_of_scan h with
  | mark hk => exact not_endsLine_of_punctuation hk
  | _ => rfl

theorem feed_notMem_nameTail (cs : List Char) : '\n' ∉ nameTail cs := by
  obtain ⟨word, mark, hword, hmark, htail⟩ := isNameTail_nameTail cs
  rw [htail, List.mem_append, not_or]
  constructor
  · intro hfeed
    exact (not_blank_of_isWord (hword _ hfeed)).2.2 rfl
  · rcases hmark with rfl | rfl | rfl <;> decide

theorem feed_notMem_takeWhile {p : Char → Bool} (hp : p '\n' = false) (cs : List Char) :
    '\n' ∉ cs.takeWhile p := by
  intro hfeed
  have hword := List.all_eq_true.mp List.all_takeWhile _ hfeed
  rw [hp] at hword
  cases hword

theorem getLast?_literal (h : (literal cs).closed) : (literal cs).text.getLast? = some '"' := by
  fun_induction literal cs with
  | case1 | case2 | case4 => cases h
  | case3 c cs tail ih =>
    dsimp only
    rw [List.getLast?_cons, List.getLast?_cons, ih h]
    rfl
  | case5 => rfl
  | case6 c cs _ _ _ _ tail ih =>
    dsimp only
    rw [List.getLast?_cons, ih h]
    rfl

/-- The text of a token does not end in a line feed, though a string may hold one. -/
theorem getLast?_of_scan (h : scan c cs = (.token k none, tail)) :
    ∃ d, (c :: tail).getLast? = some d ∧ d ≠ '\n' := by
  have hplain (hc : c ≠ '\n') (htail : '\n' ∉ tail) :
      ∃ d, (c :: tail).getLast? = some d ∧ d ≠ '\n' := by
    refine ⟨_, List.getLast?_eq_some_getLast (List.cons_ne_nil c tail), ?_⟩
    intro hlast
    rcases List.mem_cons.mp (hlast ▸ List.getLast_mem (List.cons_ne_nil c tail)) with hfeed | hfeed
    · exact hc hfeed.symm
    · exact htail hfeed
  have hne {p : Char → Bool} (hc : p c) (hp : p '\n' = false) : c ≠ '\n' := by
    rintro rfl
    rw [hp] at hc
    cases hc
  have hs := scanned_of_scan h
  generalize hnone : (none : Option LexFault) = fault at hs
  cases hs with
  | identifier hc => exact hplain (hne hc rfl) (feed_notMem_nameTail cs)
  | key hc => exact hplain (hne hc rfl) (by simp [feed_notMem_nameTail cs])
  | segment hc => exact hplain (hne hc rfl) (feed_notMem_takeWhile rfl cs)
  | integer hc => exact hplain (hne hc rfl) (feed_notMem_takeWhile rfl cs)
  | string hc =>
    have hclosed : (literal cs).closed := by
      by_contra hopen
      rw [if_neg hopen] at hnone
      cases hnone
    refine ⟨'"', ?_, by decide⟩
    rw [List.getLast?_cons, getLast?_literal hclosed]
    rfl
  | colonColon hc => exact hplain (by rw [hc]; decide) (by decide)
  | @atom d rest hc hd =>
    refine hplain (by rw [hc]; decide) ?_
    have hd : d ≠ '\n' := by
      rintro rfl
      cases hd
    simp [hd.symm, feed_notMem_nameTail rest]
  | mark hk =>
    refine hplain ?_ (List.not_mem_nil)
    rintro rfl
    cases hk

/-- A blank is a run of spaces, or a comment up to the end of its line. -/
theorem blank_cases {rest : List Char} (h : scan c (tail ++ rest) = (.blank, tail)) :
    (∀ d ∈ c :: tail, isSpace d) ∨
      c = '#' ∧ (∀ d ∈ tail, d ≠ '\n') ∧ ∀ d ∈ rest.head?, d = '\n' := by
  obtain ⟨cs, t, rfl, htail, hs⟩ : ∃ cs t, tail ++ rest = cs ∧ tail = t ∧ Scanned c cs .blank t :=
    ⟨_, _, rfl, rfl, scanned_of_scan h⟩
  cases hs with
  | space hc =>
    have hrun := takeWhile_append_eq_left_iff.mp htail.symm
    exact .inl (List.forall_mem_cons.mpr ⟨hc, hrun.1⟩)
  | comment hc =>
    have hrun := takeWhile_append_eq_left_iff.mp htail.symm
    refine .inr ⟨hc, fun d hd => by simpa using hrun.1 d hd, fun d hd => ?_⟩
    simpa using hrun.2 d hd

theorem text_of_lineFeed (h : scan c cs = (.lineFeed, tail)) : c :: tail = ['\n'] := by
  cases scanned_of_scan h with
  | feed hc => rw [hc]

end

end Lexeme

end NativeInterface
