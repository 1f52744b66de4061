import NativeInterface.Proofs.GeneratedBlocks
import NativeInterface.Proofs.Subscripts

/-!
# Lines of files

The text of a file is made of lines, each ended by a line feed (`IsFile`). What stands in a file is
read from its lines alone: the functions and types that it defines start at column zero in front of
a brace, and the lines inside are indented (`braced`); declarations stand under comments (`under`).

Of items that are neat the lines are known (`Item.lines`), and a reader finds in them what the items
are (`braced_neat`). Where code stands makes no difference to the words in it, so what generated
steps name and subscript is what their lines do (`words_linesAt`, `subscripts_linesAt`).
-/

namespace NativeInterface.C
variable {named : Prop} {names : List String} {items : List Item} {body : List Step} {head : String}
  {β : Type}

/-! ## Lines -/

/-- Lines one behind the other, each ended by a line feed. -/
def unlines : List String → String
  | [] => ""
  | line :: lines => line ++ "\n" ++ unlines lines

namespace Step

/-- The line that a step writes inside so many blocks. -/
def lineAt (n : Nat) : Step → String
  | line text => if text.isEmpty then "" else margin n ++ text
  | blank => ""
  | openBlock head => margin n ++ (if head.isEmpty then "\x7b" else head ++ " \x7b")
  | closeBlock tail => margin (n - 1) ++ ("\x7d" ++ tail)
  | raw text => text

theorem output_eq (n : Nat) (step : Step) : step.output n = step.lineAt n ++ "\n" := by
  have hopen (head : String) : (if head.isEmpty then "\x7b" else head ++ " \x7b") ≠ "" := by
    split
    · decide
    · simp
  cases step with
  | line text =>
    rw [output, lineAt, lineText]
    split
    · rfl
    · rfl
  | blank | raw => rfl
  | openBlock head => exact lineText_of_ne (hopen head) n
  | closeBlock tail => exact lineText_of_ne (by simp) (n - 1)

end Step

/-- The lines that steps write inside so many blocks. -/
def linesAt : Nat → List Step → List String
  | _, [] => []
  | n, step :: steps => step.lineAt n :: linesAt (step.indentAfter n) steps

/-- The number of open blocks behind steps. -/
def indentAfter (n : Nat) (steps : List Step) : Nat :=
  steps.foldl (fun n step => step.indentAfter n) n

theorem text_foldl_write (w : Writer) (steps : List Step) :
    (steps.foldl Writer.write w).text = w.text ++ unlines (linesAt w.indent steps) := by
  induction steps generalizing w with
  | nil => exact String.append_empty.symm
  | cons step steps ih =>
    rw [List.foldl_cons, ih, Writer.write, linesAt, unlines, Step.output_eq, String.append_assoc]

/-- A text is made of the lines of its steps. -/
theorem render_eq (steps : List Step) : render steps = unlines (linesAt 0 steps) := by
  rw [render, text_foldl_write, String.empty_append]

theorem linesAt_append (n : Nat) (steps steps' : List Step) :
    linesAt n (steps ++ steps') = linesAt n steps ++ linesAt (indentAfter n steps) steps' := by
  induction steps generalizing n with
  | nil => rfl
  | cons step steps ih =>
    rw [List.cons_append, linesAt, linesAt, ih, List.cons_append]
    rfl

theorem indentAfter_append (n : Nat) (steps steps' : List Step) :
    indentAfter n (steps ++ steps') = indentAfter (indentAfter n steps) steps' :=
  List.foldl_append

theorem indentAfter_of_depth? {steps : List Step} {n m : Nat} (h : depth? n steps = some m) :
    indentAfter n steps = m := by
  induction steps generalizing n with
  | nil => exact Option.some.inj h
  | cons step steps ih =>
    rw [depth?_cons] at h
    obtain ⟨k, hstep, hrest⟩ := Option.bind_eq_some_iff.mp h
    obtain ⟨hindent, -⟩ := Step.of_depth? hstep
    rw [indentAfter, List.foldl_cons, hindent]
    exact ih hrest

theorem linesAt_blockWith (hhead : head ≠ "") (h : Balanced body) (tail : String) (n : Nat) :
    linesAt n (blockWith head body tail) =
      (margin n ++ (head ++ " \x7b")) :: linesAt (n + 1) body
        ++ [margin n ++ ("\x7d" ++ tail)] := by
  have hempty : ¬head.isEmpty := by simpa using hhead
  have hafter : indentAfter (n + 1) body = n + 1 := indentAfter_of_depth? (h (n + 1))
  rw [blockWith, List.cons_append, linesAt, Step.indentAfter, linesAt_append, hafter, Step.lineAt,
    if_neg hempty]
  rfl

/-- A line inside a block. -/
def isIndented (line : String) : Bool := line.toList.head? = some ' '

theorem isIndented_margin (n : Nat) (t : String) : isIndented (margin (n + 1) ++ t) := by
  simp [isIndented, margin, Nat.mul_add, List.replicate_succ]

theorem feedless_margin (n : Nat) : Feedless (margin n) := by
  rw [Feedless, margin, String.toList_ofList, List.mem_replicate]
  exact fun h => absurd h.2 (by decide)

/-- The line of a step, when it writes one that is indented. -/
theorem Step.lineAt_of_content {step : Step} {t : String} (ht : t ∈ step.content?) (hne : t ≠ "")
    (n : Nat) : step.lineAt n = margin (if step.isClosing then n - 1 else n) ++ t := by
  cases step with
  | line text =>
    cases ht
    exact if_neg (by simpa using hne)
  | openBlock head =>
    cases ht
    rfl
  | closeBlock tail =>
    cases ht
    rfl
  | blank | raw => cases ht

/-- Lines inside a block are indented while it is open. -/
theorem indented_of_depth? {steps : List Step} {n m : Nat} (h : depth? n steps = some m)
    (hlines : ∀ step ∈ steps, ∃ t ∈ step.content?, IsLine named t) :
    ∀ line ∈ linesAt (n + 1) steps, isIndented line ∧ Feedless line := by
  induction steps generalizing n with
  | nil => exact fun line hline => (List.not_mem_nil hline).elim
  | cons step steps ih =>
    rw [depth?_cons] at h
    obtain ⟨k, hstep, hrest⟩ := Option.bind_eq_some_iff.mp h
    rw [List.forall_mem_cons] at hlines
    obtain ⟨⟨t, ht, hline⟩, hlines⟩ := hlines
    obtain ⟨hk, -, hclosing⟩ := Step.of_depth? hstep
    have hindent : step.indentAfter (n + 1) = k + 1 := by
      cases step with
      | closeBlock tail =>
        have hn := hclosing rfl
        change n + 1 - 1 = k + 1
        change n - 1 = k at hk
        omega
      | line | blank | openBlock | raw => exact congrArg (· + 1) hk
    have hmargin : ∃ d, (if step.isClosing then n + 1 - 1 else n + 1) = d + 1 := by
      split
      · rename_i hclose
        have hn := hclosing hclose
        exact ⟨n - 1, by omega⟩
      · exact ⟨n, rfl⟩
    obtain ⟨d, hd⟩ := hmargin
    rw [linesAt, List.forall_mem_cons, Step.lineAt_of_content ht hline.starts.1, hd, hindent]
    exact ⟨⟨isIndented_margin d t, (feedless_margin _).append hline.feedless⟩, ih hrest hlines⟩

theorem Neat.indented (h : Neat named body) :
    ∀ line ∈ linesAt 1 body, isIndented line ∧ Feedless line :=
  indented_of_depth? (h.balanced 0) h.lines

/-! ## Words of lines -/

/-- A reader of code that skips blanks finds the same behind a margin. -/
theorem Reading.code_margin (read : Reading → List Char → β) (n : Nat) (t : String)
    (hblank : ∀ cs, read (.code []) (' ' :: cs) = read (.code []) cs) :
    read (.code []) (margin n ++ t).toList = read (.code []) t.toList := by
  rw [String.toList_append, margin, String.toList_ofList]
  induction 2 * n with
  | zero => rfl
  | succ k ih => rw [List.replicate_succ, List.cons_append, hblank, ih]

theorem words_margin (n : Nat) (t : String) : words (margin n ++ t) = words t := by
  have hread := Reading.code_margin (fun r cs => (paths r cs).filter isName) n t
    fun cs => by rw [paths, if_neg (by decide), if_neg (by decide), if_neg (by decide),
      List.filter_cons_of_neg (by decide)]
  exact congrArg (List.map String.ofList) hread

/-- The names that a line subscripts, with the subscripts. -/
def subscriptsIn (line : String) : List (String × String) :=
  (subscripts (.code []) line.toList).map fun p => (String.ofList p.1, String.ofList p.2)

theorem subscriptsIn_margin (n : Nat) (t : String) :
    subscriptsIn (margin n ++ t) = subscriptsIn t := by
  have hread := Reading.code_margin subscripts n t fun cs => by
    rw [subscripts, if_neg (by decide), if_neg (by decide), if_neg (by decide)]
  exact congrArg (List.map _) hread

/-- What is read in a line, whatever the margin, is read in the code of its step. -/
theorem Step.read_lineAt {read : String → List β} (hmargin : ∀ n t, read (margin n ++ t) = read t)
    (hempty : read "\x7b" = read " \x7b") (n : Nat) (step : Step) :
    read (step.lineAt n) = read step.code := by
  cases step with
  | line text =>
    rw [lineAt]
    split
    · rename_i hnil
      rw [String.isEmpty_iff.mp hnil]
      rfl
    · exact hmargin n text
  | blank | raw => rfl
  | openBlock head =>
    rw [lineAt, hmargin, code_openBlock]
    split
    · rename_i hnil
      rw [String.isEmpty_iff.mp hnil, hempty]
      rfl
    · rfl
  | closeBlock tail => exact hmargin (n - 1) _

theorem flatMap_linesAt {read : String → List β}
    (h : ∀ n step, read (Step.lineAt n step) = read step.code) (n : Nat) (steps : List Step) :
    (linesAt n steps).flatMap read = steps.flatMap fun step => read step.code := by
  induction steps generalizing n with
  | nil => rfl
  | cons step steps ih => rw [linesAt, List.flatMap_cons, List.flatMap_cons, h, ih]

theorem words_linesAt (n : Nat) (steps : List Step) :
    (linesAt n steps).flatMap words = Step.words steps :=
  flatMap_linesAt (Step.read_lineAt words_margin (by decide)) n steps

theorem subscripts_linesAt (n : Nat) (steps : List Step) :
    (linesAt n steps).flatMap subscriptsIn = Step.subscripts steps :=
  flatMap_linesAt (Step.read_lineAt subscriptsIn_margin (by decide)) n steps

/-! ## What stands in braces -/

variable {line : String}

/-- A piece of a C file in braces: what stands in front of the brace, and the lines inside. -/
structure Braced where
  head : String
  body : List String
  deriving DecidableEq, Repr

/-- What stands in front of a brace that ends a line at column zero. -/
def opening? (line : String) : Option String :=
  if isIndented line then none
  else match line.toList.reverse with
    | '\x7b' :: ' ' :: front => some (String.ofList front.reverse)
    | _ => none

/-- All pieces of a file in braces, in order. -/
def braced : List String → List Braced
  | [] => []
  | line :: lines =>
    match opening? line with
    | some head => ⟨head, lines.takeWhile isIndented⟩ :: braced lines
    | none => braced lines

theorem opening?_of_isIndented (h : isIndented line) : opening? line = none :=
  if_pos h

theorem opening?_of_isPlain (h : line.toList.getLast? ≠ some '\x7b') : opening? line = none := by
  rw [opening?]
  split
  · rfl
  · split
    · rename_i front hfront
      have hhead := congrArg List.head? hfront
      rw [List.head?_reverse] at hhead
      exact absurd hhead h
    · rfl

theorem opening?_head (h : IsLine True head) : opening? (head ++ " \x7b") = some head := by
  have hne : head.toList ≠ [] := fun hnil => h.starts.1 (String.toList_eq_nil_iff.mp hnil)
  have hfront : ¬isIndented (head ++ " \x7b") := by
    rw [isIndented, String.toList_append, List.head?_append_of_ne_nil _ hne, decide_eq_true_eq]
    exact h.starts.2 trivial
  rw [opening?, if_neg hfront]
  simp

theorem braced_cons_of_none (h : opening? line = none) (lines : List String) :
    braced (line :: lines) = braced lines := by
  rw [braced, h]

/-- Lines that open nothing. -/
theorem braced_append_of_none {lines : List String} (h : ∀ line ∈ lines, opening? line = none)
    (rest : List String) : braced (lines ++ rest) = braced rest := by
  induction lines with
  | nil => rfl
  | cons line lines ih =>
    rw [List.forall_mem_cons] at h
    rw [List.cons_append, braced_cons_of_none h.1, ih h.2]

theorem braced_block (hhead : IsLine True head) {body : List String}
    (hbody : ∀ line ∈ body, isIndented line) {last : String} (hlast : ¬isIndented last)
    (hnone : opening? last = none) (rest : List String) :
    braced ((head ++ " \x7b") :: body ++ [last] ++ rest) = ⟨head, body⟩ :: braced rest := by
  have hinside : (body ++ [last] ++ rest).takeWhile isIndented = body := by
    rw [List.append_assoc, List.takeWhile_append_of_pos hbody, List.singleton_append,
      List.takeWhile_cons_of_neg hlast, List.append_nil]
  rw [List.cons_append, List.cons_append, braced, opening?_head hhead]
  dsimp only
  rw [hinside, List.append_assoc,
    braced_append_of_none fun line hline => opening?_of_isIndented (hbody line hline),
    List.singleton_append, braced_cons_of_none hnone]

/-! ## Lines of items -/

/-- The lines of an item. -/
def Item.lines (item : Item) : List String := linesAt 0 item.steps

/-- What an item has in braces. -/
def Item.braced : Item → List Braced
  | definition _ signature body => [⟨signature.text, linesAt 1 body⟩]
  | group head body _ => [⟨head, linesAt 1 body⟩]
  | _ => []

theorem linesAt_flatMap (h : ∀ item ∈ items, Balanced item.steps) :
    linesAt 0 (items.flatMap Item.steps) = items.flatMap Item.lines := by
  induction items with
  | nil => rfl
  | cons item items ih =>
    rw [List.forall_mem_cons] at h
    rw [List.flatMap_cons, linesAt_append, indentAfter_of_depth? (h.1 0), ih h.2, List.flatMap_cons]
    rfl

theorem render_items (h : ∀ item ∈ items, item.Even named) :
    Item.render items = unlines (items.flatMap Item.lines) := by
  rw [Item.render, render_eq, linesAt_flatMap fun item hitem => (h item hitem).balanced]

/-- The lines of a block at column zero. -/
theorem lines_blockWith {head tail : String} (hhead : IsLine True head) (hbody : Neat named body) :
    linesAt 0 (blockWith head body tail) =
      (head ++ " \x7b") :: linesAt 1 body ++ ["\x7d" ++ tail] := by
  have hmargin (t : String) : margin 0 ++ t = t := String.empty_append
  rw [linesAt_blockWith hhead.starts.1 hbody.balanced, hmargin, hmargin]

theorem not_isIndented_close (tail : String) : ¬isIndented ("\x7d" ++ tail) := by
  simp [isIndented]

theorem feedless_lines {item : Item} (h : item.Neat named) :
    ∀ line ∈ item.lines, Feedless line := by
  have hblock {head tail : String} {body : List Step} (hhead : IsLine True head)
      (hbody : Neat named body) (htail : Feedless ("\x7d" ++ tail)) :
      ∀ line ∈ linesAt 0 (blockWith head body tail), Feedless line := by
    rw [lines_blockWith hhead hbody, List.cons_append, List.forall_mem_cons,
      List.forall_mem_append, List.forall_mem_singleton]
    exact ⟨hhead.feedless.append (.of_check rfl), fun line hline => (hbody.indented line hline).2,
      htail⟩
  cases item with
  | raw t => exact List.forall_mem_singleton.mpr h.feedless
  | blank =>
    have hempty : Feedless "" := .of_check rfl
    exact List.forall_mem_singleton.mpr hempty
  | prototype role signature =>
    have hend : Feedless ";" := .of_check rfl
    exact List.forall_mem_singleton.mpr (Feedless.append h hend)
  | definition role signature body => exact hblock h.1 h.2 (.of_check rfl)
  | group head body tail => exact hblock h.1 h.2.1 h.2.2.feedless

/-- A reader of braces finds those of an item, and goes on behind it. -/
theorem braced_lines {item : Item} (h : item.Neat named) (rest : List String) :
    C.braced (item.lines ++ rest) = item.braced ++ C.braced rest := by
  have hblock {head tail : String} {body : List Step} (hhead : IsLine True head)
      (hbody : Neat named body) (htail : IsPlain ("\x7d" ++ tail)) :
      C.braced (linesAt 0 (blockWith head body tail) ++ rest) =
        ⟨head, linesAt 1 body⟩ :: C.braced rest := by
    rw [lines_blockWith hhead hbody]
    exact braced_block hhead (fun line hline => (hbody.indented line hline).1)
      (not_isIndented_close tail) (opening?_of_isPlain htail.last) rest
  cases item with
  | raw t => exact braced_cons_of_none (opening?_of_isPlain h.last) rest
  | blank => exact braced_cons_of_none rfl rest
  | prototype role signature =>
    have hlast : (signature.text ++ ";").toList.getLast? ≠ some '\x7b' :=
      getLast?_append_ne (by decide) _
    exact braced_cons_of_none (opening?_of_isPlain hlast) rest
  | definition role signature body =>
    exact hblock h.1 h.2 ⟨.of_check rfl, by decide⟩
  | group head body tail => exact hblock h.1 h.2.1 h.2.2

theorem braced_neat (h : NeatItems named items) :
    C.braced (items.flatMap Item.lines) = items.flatMap Item.braced := by
  induction items with
  | nil => rfl
  | cons item items ih =>
    rw [NeatItems, List.forall_mem_cons] at h
    rw [List.flatMap_cons, braced_lines h.1, ih h.2, List.flatMap_cons]

/-! ## Files -/

/-- The text of a file, line by line. In front of its code names stand as they are; one that has a
line feed breaks a line there, and nowhere else. -/
structure IsFile (names : List String) (text : String) (lines : List String) : Prop where
  text : text = unlines lines
  feedless : (∀ name ∈ names, Feedless name) → ∀ line ∈ lines, Feedless line
  /-- What stands in braces does so behind the names. -/
  code : ∃ front code, lines = front ++ code ∧ (∀ line ∈ front, opening? line = none) ∧
    ∀ line ∈ code, Feedless line

/-- A line that is neither empty nor starts a comment. -/
def IsDeclaration (line : String) : Prop := line.toList.head?.any (· ≠ '/')

theorem IsDeclaration.ne_empty (h : IsDeclaration line) : line ≠ "" := by
  rintro rfl
  cases h

theorem IsDeclaration.ne_title (h : IsDeclaration line) (title : String) :
    line ≠ "/* " ++ title ++ " */" := by
  rintro rfl
  simp [IsDeclaration] at h

theorem IsDeclaration.append (h : IsDeclaration line) (rest : String) :
    IsDeclaration (line ++ rest) := by
  obtain ⟨c, hc, hne⟩ := (Option.any_eq_true ..).mp h
  rw [IsDeclaration, String.toList_append, List.head?_append, hc, Option.some_or, Option.any_some]
  exact hne

theorem isDeclaration_of_isIndented (h : isIndented line) : IsDeclaration line := by
  have hhead : line.toList.head? = some ' ' := of_decide_eq_true h
  rw [IsDeclaration, hhead]
  rfl

/-- The titles under which a header declares functions of a surface. -/
def functionTitles : List String := ["native implementations", "result accessors", "messages"]

/-- A line in front of the code opens nothing, is no title, and is broken by names only. -/
structure IsFront (names : List String) (line : String) : Prop where
  opens : opening? line = none
  title : ∀ title ∈ functionTitles, line ≠ "/* " ++ title ++ " */"
  feedless : (∀ name ∈ names, Feedless name) → Feedless line

theorem IsFront.of_isPlain (h : IsDeclaration line) (hlast : line.toList.getLast? ≠ some '\x7b')
    (hfeed : (∀ name ∈ names, Feedless name) → Feedless line) : IsFront names line :=
  ⟨opening?_of_isPlain hlast, fun title _ => h.ne_title title, hfeed⟩

theorem IsFront.append {a b : String} (h : IsDeclaration a)
    (hlast : b.toList.getLast?.any (· ≠ '\x7b'))
    (hfeed : (∀ name ∈ names, Feedless name) → Feedless (a ++ b)) : IsFront names (a ++ b) :=
  .of_isPlain (h.append b) (getLast?_append_ne hlast a) hfeed

/-- A line that starts with a blank. -/
theorem IsFront.indented (h : isIndented line)
    (hfeed : (∀ name ∈ names, Feedless name) → Feedless line) : IsFront names line :=
  ⟨opening?_of_isIndented h, fun title _ => (isDeclaration_of_isIndented h).ne_title title, hfeed⟩

theorem front_blank (names : List String) : IsFront names "" :=
  ⟨rfl, fun title _ => by simp, fun _ => .of_check rfl⟩

/-- A file of items: lines in front, and neat code behind them. -/
theorem isFile_of_items {front code : List Item} (heven : ∀ item ∈ front, item.Even named)
    (hfront : ∀ line ∈ front.flatMap Item.lines, IsFront names line)
    (hcode : NeatItems named code) :
    IsFile names (Item.render (front ++ code))
        (front.flatMap Item.lines ++ code.flatMap Item.lines) ∧
      C.braced (front.flatMap Item.lines ++ code.flatMap Item.lines) =
        code.flatMap Item.braced := by
  have hfeedless : ∀ line ∈ code.flatMap Item.lines, Feedless line := by
    intro line hline
    obtain ⟨item, hitem, hline⟩ := List.mem_flatMap.mp hline
    exact feedless_lines (hcode item hitem) line hline
  have hall : ∀ item ∈ front ++ code, item.Even named :=
    List.forall_mem_append.mpr ⟨heven, fun item hitem => (hcode item hitem).even⟩
  refine ⟨⟨?_, fun hnames => ?_, _, _, rfl, fun line hline => (hfront line hline).opens,
    hfeedless⟩, ?_⟩
  · rw [render_items hall, List.flatMap_append]
  · exact List.forall_mem_append.mpr
      ⟨fun line hline => (hfront line hline).feedless hnames, hfeedless⟩
  · rw [braced_append_of_none fun line hline => (hfront line hline).opens, braced_neat hcode]

theorem feedless_hex (width n : Nat) : Feedless (Text.hex width n) := by
  have hdigit : ∀ d < 16, Nat.digitChar d ≠ '\n' := by decide
  have hdigits : '\n' ∉ Nat.toDigits 16 n := by
    induction n using Nat.strongRecOn with
    | ind n ih =>
      by_cases hn : n < 16
      · rw [Nat.toDigits_of_lt_base hn, List.mem_singleton]
        exact (hdigit n hn).symm
      · rw [Nat.toDigits_of_base_le (by decide) (Nat.not_lt.mp hn), List.mem_append,
          List.mem_singleton, not_or]
        exact ⟨ih (n / 16) (by omega), (hdigit _ (Nat.mod_lt n (by decide))).symm⟩
  rw [Feedless, Text.hex, String.toList_ofList, List.mem_append, List.mem_replicate, not_or]
  exact ⟨fun h => absurd h.2 (by decide), hdigits⟩

theorem feedless_digest (s : Surface) : Feedless s.digest := by
  rw [Feedless, Surface.digest, Sha256.hexDigest, String.toList_join, List.flatMap_map]
  intro hmem
  obtain ⟨w, -, hmem⟩ := List.mem_flatMap.mp hmem
  exact feedless_hex 8 w.toNat hmem

/-- The names that stand as they are in front of the code. -/
def frontNames (name : String) (s : Surface) : List String := [name, s.moduleName]

/-- The first line is a comment of its own. -/
theorem ne_title_generated {title : String} (h : title ∈ functionTitles) (rest : String) :
    "/* Generated by bridgespec from " ++ rest ≠ "/* " ++ title ++ " */" := by
  have hletter : ∀ title ∈ functionTitles, title.toList.head?.any (· ≠ 'G') := by decide
  obtain ⟨c, hc, hne⟩ := (Option.any_eq_true ..).mp (hletter title h)
  obtain ⟨cs, hcs⟩ := List.head?_eq_some_iff.mp hc
  intro heq
  have hplace := congrArg (fun t => t.toList[3]?) heq
  simp only [String.toList_append, hcs] at hplace
  exact of_decide_eq_true hne (Option.some.inj hplace).symm

theorem front_banner {backend : String} (hbackend : Feedless backend) (name : String)
    (s : Surface) :
    ∀ line ∈ (banner backend name s).flatMap Item.lines, IsFront (frontNames name s) line := by
  have hnames (h : ∀ name' ∈ frontNames name s, Feedless name') :
      Feedless name ∧ Feedless s.moduleName :=
    ⟨h _ List.mem_cons_self, h _ (List.mem_cons_of_mem _ List.mem_cons_self)⟩
  have hfirst : IsFront (frontNames name s)
      ("/* Generated by bridgespec from " ++ name ++ specSuffix ++ ". Do not edit.") := by
    refine ⟨opening?_of_isPlain (getLast?_append_ne (by decide) _), fun title htitle => ?_,
      fun h => ?_⟩
    · rw [String.append_assoc, String.append_assoc]
      exact ne_title_generated htitle _
    · have hsuffix : Feedless specSuffix := .of_check (t := ".bspec") rfl
      have := (hnames h).1.feeds
      have := hsuffix.feeds
      exact .of_check rfl
  have hmodule : IsFront (frontNames name s) (" * module: " ++ s.moduleName) := by
    refine .indented (by simp [isIndented]) fun h => ?_
    have := (hnames h).2.feeds
    exact .of_check rfl
  have hmark : IsFront (frontNames name s) (" * backend: " ++ backend) := by
    have := hbackend.feeds
    exact .indented (by simp [isIndented]) fun _ => .of_check rfl
  have hdigest : IsFront (frontNames name s) (" * ir-digest: " ++ s.digest) := by
    have := (feedless_digest s).feeds
    exact .indented (by simp [isIndented]) fun _ => .of_check rfl
  have hlast : IsFront (frontNames name s) " */" := .indented rfl fun _ => .of_check rfl
  have hbanner : (banner backend name s).flatMap Item.lines =
      ["/* Generated by bridgespec from " ++ name ++ specSuffix ++ ". Do not edit.",
        " * module: " ++ s.moduleName, " * backend: " ++ backend, " * ir-digest: " ++ s.digest,
        " */"] := rfl
  rw [hbanner]
  simp only [List.forall_mem_cons, List.not_mem_nil, false_implies, implies_true, and_true]
  exact ⟨hfirst, hmodule, hmark, hdigest, hlast⟩

/-- A line that includes a header. -/
theorem front_include {path : String} (h : (∀ name ∈ names, Feedless name) → Feedless path) :
    IsFront names ("#include \"" ++ path ++ "\"") := by
  have hstart : IsDeclaration "#include \"" := rfl
  refine .append (hstart.append path) (by decide) fun hnames => ?_
  have := (h hnames).feeds
  exact .of_check rfl

end NativeInterface.C
