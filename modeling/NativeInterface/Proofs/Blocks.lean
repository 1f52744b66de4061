import NativeInterface.Proofs.GeneratedNames
import NativeInterface.Proofs.Literals

/-!
# Blocks

The writer of C text indents by the blocks that are open. To close a block where none is open is no
fault for it: the margin stays at column zero. `depth?` counts open blocks and does fail there, and
`Balanced` code is code on which it never fails and ends where it began. Such code moves the margin
as blocks are counted (`of_depth?`), so a file of items that are each in balance is laid out by its
blocks (`LaidOut`, `laidOut_of_even`).

A line is indented only if it is not empty, and a line feed in its text would begin another one that
is not. Generated lines are fixed text with a few holes in it, and what is filled in has no line
feeds, so whether a text is a line is computed from its fixed characters (`IsLine.of_check`).
-/

namespace NativeInterface.C
variable {named : Prop} {t : String} {step : Step} {item : Item}

/-! ## Open blocks -/

namespace Step

def isOpening : Step → Bool
  | openBlock _ => true
  | _ => false

def isClosing : Step → Bool
  | closeBlock _ => true
  | _ => false

/-- What a step writes on an indented line of its own. -/
def content? : Step → Option String
  | line text => some text
  | openBlock head => some (if head.isEmpty then "\x7b" else head ++ " \x7b")
  | closeBlock tail => some ("\x7d" ++ tail)
  | blank | raw _ => none

/-- The number of open blocks behind a step. No block is closed where none is open. -/
def depth? (depth : Nat) : Step → Option Nat
  | openBlock _ => some (depth + 1)
  | closeBlock _ => if depth = 0 then none else some (depth - 1)
  | _ => some depth

end Step

/-- How many blocks the steps open. -/
def opened (steps : List Step) : Nat := steps.countP Step.isOpening

/-- How many blocks the steps close. -/
def closed (steps : List Step) : Nat := steps.countP Step.isClosing

/-- The writer behind some steps. -/
def Writer.after (steps : List Step) : Writer := steps.foldl Writer.write {}

/-- The number of open blocks behind some steps. -/
def depth? (depth : Nat) (steps : List Step) : Option Nat := steps.foldlM Step.depth? depth

/-- The steps close the blocks that they open, and no others. -/
def Balanced (steps : List Step) : Prop := ∀ depth, depth? depth steps = some depth

theorem closed_append (steps steps' : List Step) :
    closed (steps ++ steps') = closed steps + closed steps' :=
  List.countP_append

theorem Writer.after_concat (steps : List Step) (step : Step) :
    after (steps ++ [step]) = (after steps).write step :=
  List.foldl_concat ..

theorem depth?_cons (n : Nat) (step : Step) (steps : List Step) :
    depth? n (step :: steps) = (step.depth? n).bind (depth? · steps) :=
  List.foldlM_cons

theorem depth?_append (n : Nat) (steps steps' : List Step) :
    depth? n (steps ++ steps') = (depth? n steps).bind (depth? · steps') :=
  List.foldlM_append

/-- One step moves the margin as blocks are counted. -/
theorem Step.of_depth? {n m : Nat} (h : step.depth? n = some m) :
    step.indentAfter n = m ∧ n + opened [step] = closed [step] + m ∧ (step.isClosing → 1 ≤ n) := by
  cases step with
  | closeBlock tail =>
    rw [depth?] at h
    split at h
    · cases h
    · cases h
      refine ⟨rfl, ?_, fun _ => by omega⟩
      change n + 0 = 1 + (n - 1)
      omega
  | line | blank | openBlock | raw =>
    cases h
    refine ⟨rfl, ?_, fun hclosing => by cases hclosing⟩
    simp [opened, closed, isOpening, isClosing]

/-- So do many: the margin behind them is the number of blocks that are open. -/
theorem of_depth? {steps : List Step} {w : Writer} {m : Nat} (h : depth? w.indent steps = some m) :
    (steps.foldl Writer.write w).indent = m ∧ w.indent + opened steps = closed steps + m := by
  induction steps generalizing w with
  | nil =>
    cases h
    exact ⟨rfl, by simp [opened, closed]⟩
  | cons step steps ih =>
    rw [depth?_cons] at h
    obtain ⟨k, hstep, hrest⟩ := Option.bind_eq_some_iff.mp h
    obtain ⟨hindent, hcount, -⟩ := Step.of_depth? hstep
    -- the rest is counted from the margin behind the first step
    have hwrite : (w.write step).indent = k := hindent
    obtain ⟨hend, hcounts⟩ := @ih (w.write step) (hwrite ▸ hrest)
    refine ⟨hend, ?_⟩
    rw [hwrite] at hcounts
    simp only [opened, closed, List.countP_cons, List.countP_nil] at hcount hcounts ⊢
    omega

namespace Balanced
variable {steps steps' : List Step}

theorem nil : Balanced [] := fun _ => rfl

theorem append (h : Balanced steps) (h' : Balanced steps') : Balanced (steps ++ steps') := by
  intro depth
  rw [depth?_append, h, Option.bind_some, h']

theorem blockWith (head : String) (h : Balanced steps) (tail : String) :
    Balanced (blockWith head steps tail) := by
  intro depth
  rw [C.blockWith, List.cons_append, depth?_cons, Step.depth?, Option.bind_some, depth?_append, h,
    Option.bind_some]
  rfl

theorem flatMap {α : Type} {f : α → List Step} {xs : List α} (h : ∀ x ∈ xs, Balanced (f x)) :
    Balanced (xs.flatMap f) := by
  induction xs with
  | nil => exact nil
  | cons x xs ih =>
    rw [List.forall_mem_cons] at h
    exact h.1.append (ih h.2)

/-- Nothing is left open. -/
theorem indent_after (h : Balanced steps) : (Writer.after steps).indent = 0 :=
  (of_depth? (w := {}) (h 0)).1

/-- Up to any place in balanced code the margin is the number of open blocks, and counting goes on
from there. -/
theorem split (h : Balanced (steps ++ steps')) :
    opened steps = closed steps + (Writer.after steps).indent ∧
      depth? (Writer.after steps).indent steps' = some 0 := by
  have hzero := h 0
  rw [depth?_append] at hzero
  obtain ⟨n, hfront, hrest⟩ := Option.bind_eq_some_iff.mp hzero
  obtain ⟨rfl, hcount⟩ := of_depth? (w := {}) hfront
  rw [Nat.zero_add] at hcount
  exact ⟨hcount, hrest⟩

end Balanced

/-! ## Lines -/

/-- A text without line feeds. -/
def Feedless (t : String) : Prop := '\n' ∉ t.toList

/-- A text that is not empty and does not start with a blank. Where names are missing a blank may
come first that would stand behind them, so this holds only if they are given. -/
def Starts (named : Prop) (t : String) : Prop := t ≠ "" ∧ (named → t.toList.head? ≠ some ' ')

/-- A text that makes one line. -/
structure IsLine (named : Prop) (t : String) : Prop where
  starts : Starts named t
  feedless : Feedless t

theorem Feedless.of_chars {p : Char → Bool} (h : ∀ c ∈ t.toList, p c) (hp : ¬p '\n') : Feedless t :=
  fun hfeed => hp (h _ hfeed)

theorem Feedless.append {a b : String} (ha : Feedless a) (hb : Feedless b) : Feedless (a ++ b) := by
  rw [Feedless, String.toList_append, List.mem_append, not_or]
  exact ⟨ha, hb⟩

theorem IsIdent.feedless (h : IsIdent t) : Feedless t := .of_chars h (by decide)

section starts
variable {named : Prop} {a b t : String}

theorem Starts.of_check (h : t.toList.head?.any (· ≠ ' ')) : Starts named t := by
  rw [Starts, Ne, ← String.toList_eq_nil_iff]
  cases ht : t.toList with
  | nil =>
    rw [ht] at h
    cases h
  | cons c cs =>
    rw [ht] at h
    have hc : c ≠ ' ' := of_decide_eq_true h
    exact ⟨List.cons_ne_nil c cs, fun _ hblank => hc (Option.some.inj hblank)⟩

theorem Starts.append (h : Starts named a) (b : String) : Starts named (a ++ b) := by
  have hne : a.toList ≠ [] := fun hnil => h.1 (String.toList_eq_nil_iff.mp hnil)
  refine ⟨fun hempty => h.1 (String.append_eq_empty_iff.mp hempty).1, fun hnamed => ?_⟩
  rw [String.toList_append, List.head?_append_of_ne_nil _ hne]
  exact h.2 hnamed

/-- A text that is a missing name if names are missing, and something behind it. -/
theorem Starts.of_named (h : named → Starts named a) (hb : b ≠ "") : Starts named (a ++ b) :=
  ⟨fun hempty => hb (String.append_eq_empty_iff.mp hempty).2,
    fun hnamed => ((h hnamed).append b).2 hnamed⟩

theorem IsLine.append (ha : IsLine named a) (hb : Feedless b) : IsLine named (a ++ b) :=
  ⟨ha.starts.append b, ha.feedless.append hb⟩

end starts

/-- The line feeds of a text are among its fixed characters. -/
class Feeds (t : String) (fixed : outParam (List Char)) : Prop where
  mem : '\n' ∈ t.toList → '\n' ∈ fixed

/-- A text starts with no blank if its fixed characters do not. -/
class Front (named : Prop) (t : String) (fixed : outParam (List Char)) : Prop where
  starts : fixed.head?.any (· ≠ ' ') → Starts named t

theorem Feedless.feeds (h : Feedless t) : Feeds t [] where
  mem hfeed := (h hfeed).elim

/-- Some character stands for the one that the text starts with. -/
theorem Starts.toFront (h : Starts named t) : Front named t ['_'] where
  starts _ := h

section instances
variable {named : Prop} {a b : String} {cs x y : List Char}

instance (priority := low) [h : SameText a (String.ofList cs)] : Feeds a cs where
  mem hfeed := by rwa [h.eq, String.toList_ofList] at hfeed

instance [ha : Feeds a x] [hb : Feeds b y] : Feeds (a ++ b) (x ++ y) where
  mem hfeed := by
    rw [String.toList_append, List.mem_append] at hfeed
    exact List.mem_append.mpr (hfeed.imp ha.mem hb.mem)

instance (name : String) : Feeds (ident name) [] := (isIdent_ident name).feedless.feeds

instance (n : Nat) : Feeds (Text.decimal n) [] := (isIdent_decimal n).feedless.feeds

instance (t : String) : Feeds (literal t) [] := Feedless.feeds (feed_notMem_literal t)

instance [h : Feeds a x] : Feeds (lengthName a) x where
  mem hfeed := by
    rw [lengthName, String.toList_append, List.mem_append] at hfeed
    exact hfeed.elim h.mem fun hfeed => absurd hfeed (by decide)

instance [h : Feeds a x] (s : Surface) (type : Ty) : Feeds (helper s a type) x where
  mem hfeed := by
    obtain ⟨back, hback, heq | heq⟩ := helper_cases s a type
    · rw [heq, String.toList_append, String.toList_append, List.mem_append,
        List.mem_append] at hfeed
      rcases hfeed with (hfeed | hfeed) | hfeed
      · exact absurd hfeed (by decide)
      · exact h.mem hfeed
      · exact absurd hfeed hback.feedless
    · rw [heq, String.toList_append, List.mem_append] at hfeed
      exact hfeed.elim h.mem fun hfeed => absurd hfeed hback.feedless

instance (priority := low) [h : SameText a (String.ofList cs)] : Front named a cs where
  starts hfront := .of_check (by rwa [h.eq, String.toList_ofList])

instance [ha : Front named a x] : Front named (a ++ b) x where
  starts hfront := (ha.starts hfront).append b

instance [h : Front named a x] (s : Surface) (type : Ty) : Front named (helper s a type) x where
  starts hfront := by
    obtain ⟨back, -, heq | heq⟩ := helper_cases s a type
    · -- the fixed text is not in front here
      have hbridge : Starts named "bridge_" := .of_check rfl
      rw [heq]
      exact (hbridge.append a).append back
    · rw [heq]
      exact (h.starts hfront).append back

end instances

/-- The line feeds of some texts are among the fixed characters of all of them. -/
class FeedsAll (ts : List String) (fixed : outParam (List Char)) : Prop where
  mem : ∀ t ∈ ts, '\n' ∈ t.toList → '\n' ∈ fixed

theorem feedsAll_of_feedless {ts : List String} (h : ∀ t ∈ ts, Feedless t) : FeedsAll ts [] where
  mem t ht hfeed := (h t ht hfeed).elim

theorem mem_join {sep : String} {parts : List String} {c : Char}
    (h : c ∈ (Text.join sep parts).toList) : c ∈ sep.toList ∨ ∃ part ∈ parts, c ∈ part.toList := by
  fun_induction Text.join sep parts with
  | case1 => exact absurd h List.not_mem_nil
  | case2 part => exact .inr ⟨part, List.mem_cons_self, h⟩
  | case3 part parts _ ih =>
    rw [String.toList_append, String.toList_append, List.mem_append, List.mem_append] at h
    rcases h with (h | h) | h
    · exact .inr ⟨part, List.mem_cons_self, h⟩
    · exact .inl h
    · refine (ih h).imp_right ?_
      rintro ⟨part', hpart, hc⟩
      exact ⟨part', List.mem_cons_of_mem _ hpart, hc⟩

theorem notMem_join {c : Char} {sep : String} (hsep : c ∉ sep.toList) {parts : List String}
    (h : ∀ part ∈ parts, c ∉ part.toList) : c ∉ (Text.join sep parts).toList := by
  intro hmem
  rcases mem_join hmem with hmem | ⟨part, hpart, hmem⟩
  · exact hsep hmem
  · exact h part hpart hmem

section lists
variable {t sep : String} {ts : List String} {x y : List Char}

instance : FeedsAll [] [] where
  mem _ h := (List.not_mem_nil h).elim

instance [h : Feeds t x] [hs : FeedsAll ts y] : FeedsAll (t :: ts) (x ++ y) where
  mem := List.forall_mem_cons.mpr ⟨fun hfeed => List.mem_append_left y (h.mem hfeed),
    fun t ht hfeed => List.mem_append_right x (hs.mem t ht hfeed)⟩

instance [h : Feeds sep x] [hs : FeedsAll ts y] : Feeds (Text.join sep ts) (x ++ y) where
  mem hfeed := by
    rcases mem_join hfeed with hfeed | ⟨t, ht, hfeed⟩
    · exact List.mem_append_left y (h.mem hfeed)
    · exact List.mem_append_right x (hs.mem t ht hfeed)

end lists

theorem Feedless.of_check {fixed : List Char} [h : Feeds t fixed] (hcheck : fixed.all (· ≠ '\n')) :
    Feedless t := by
  intro hfeed
  have hne := List.all_eq_true.mp hcheck _ (h.mem hfeed)
  exact of_decide_eq_true hne rfl

theorem IsLine.of_check {front fixed : List Char} [hfront : Front named t front] [Feeds t fixed]
    (hcheck : front.head?.any (· ≠ ' ') && fixed.all (· ≠ '\n')) : IsLine named t := by
  obtain ⟨hstarts, hall⟩ := Bool.and_eq_true_iff.mp hcheck
  exact ⟨hfront.starts hstarts, .of_check hall⟩

section signatures
variable {named : Prop} {isStatic : Bool} {returns name : String} {params : List String}
  {x y z : List Char}

theorem feedless_static : Feedless (if isStatic then "static " else "") := by
  split
  · exact .of_check rfl
  · exact .of_check rfl

instance [Feeds returns x] [Feeds name y] [FeedsAll params z] :
    Feeds (Signature.text ⟨isStatic, returns, name, params⟩) (x ++ y ++ z) where
  mem hfeed := by
    have := (@feedless_static isStatic).feeds
    have hparts := (inferInstance : Feeds ((if isStatic then "static " else "") ++ returns ++ " "
      ++ name ++ "(" ++ Text.join ", " params ++ ")") _).mem hfeed
    simpa [or_assoc] using hparts

instance [h : Front named returns x] :
    Front named (Signature.text ⟨isStatic, returns, name, params⟩) x where
  starts hfront := by
    have hfront : Starts named ((if isStatic then "static " else "") ++ returns) := by
      split
      · exact .append (.of_check rfl) returns
      · rw [String.empty_append]
        exact h.starts hfront
    exact ((((hfront.append _).append _).append _).append _).append _

end signatures

/-! ## Code in balance -/

/-- Code that closes the blocks that it opens, and in which every step writes an indented line. -/
structure Neat (named : Prop) (steps : List Step) : Prop where
  balanced : Balanced steps
  lines : ∀ step ∈ steps, ∃ t ∈ step.content?, IsLine named t

namespace Neat
variable {named : Prop} {steps steps' body : List Step} {t head tail n length : String}

theorem nil : Neat named [] := ⟨.nil, fun _ h => (List.not_mem_nil h).elim⟩

theorem append (h : Neat named steps) (h' : Neat named steps') : Neat named (steps ++ steps') where
  balanced := h.balanced.append h'.balanced
  lines := List.forall_mem_append.mpr ⟨h.lines, h'.lines⟩

theorem line (h : IsLine named t) : Neat named [.line t] where
  balanced _ := rfl
  lines := List.forall_mem_singleton.mpr ⟨t, rfl, h⟩

theorem cons (ht : IsLine named t) (h : Neat named steps) : Neat named (.line t :: steps) :=
  (line ht).append h

theorem blockWith (hhead : head = "" ∨ IsLine named head) (h : Neat named body)
    (htail : Feedless tail) : Neat named (blockWith head body tail) where
  balanced := h.balanced.blockWith head tail
  lines := by
    have hopen : IsLine named (if head.isEmpty then "\x7b" else head ++ " \x7b") := by
      rcases hhead with rfl | hline
      · rw [if_pos (by decide)]
        exact .of_check rfl
      · have hne := hline.starts.1
        rw [if_neg (by simpa using hne)]
        exact hline.append (.of_check rfl)
    have hclose : IsLine named ("\x7d" ++ tail) := .append (.of_check rfl) htail
    exact List.forall_mem_cons.mpr ⟨⟨_, rfl, hopen⟩,
      List.forall_mem_append.mpr ⟨h.lines, List.forall_mem_singleton.mpr ⟨_, rfl, hclose⟩⟩⟩

theorem block (hhead : IsLine named head) (h : Neat named body) : Neat named (block head body) :=
  blockWith (.inr hhead) h (.of_check rfl)

/-- A block with nothing in front of its brace. -/
theorem bare (h : Neat named body) : Neat named (C.block "" body) :=
  blockWith (.inl rfl) h (.of_check rfl)

theorem loop (hn : Feedless n) (hlength : Feedless length) (h : Neat named body) :
    Neat named (loop n length body) := by
  have := hn.feeds
  have := hlength.feeds
  exact block (.of_check rfl) h

theorem flatMap {α : Type} {f : α → List Step} {xs : List α} (h : ∀ x ∈ xs, Neat named (f x)) :
    Neat named (xs.flatMap f) := by
  induction xs with
  | nil => exact nil
  | cons x xs ih =>
    rw [List.forall_mem_cons] at h
    exact h.1.append (ih h.2)

theorem map_line {α : Type} {f : α → String} {xs : List α} (h : ∀ x ∈ xs, IsLine named (f x)) :
    Neat named (xs.map fun x => .line (f x)) := by
  induction xs with
  | nil => exact nil
  | cons x xs ih =>
    rw [List.forall_mem_cons] at h
    exact cons h.1 (ih h.2)

end Neat

/-- What holds of each part, and of parts one behind the other, holds of all that is collected. -/
theorem collect_induction {α β : Type} {P : List β → Prop} (hnil : P [])
    (happend : ∀ bs bs', P bs → P bs' → P (bs ++ bs')) {f : α → Numbered (List β)} {xs : List α}
    (h : ∀ x ∈ xs, ∀ n, P ((f x).run n).1) (n : Nat) : P ((collect f xs).run n).1 := by
  induction xs generalizing n with
  | nil => exact hnil
  | cons x xs ih =>
    rw [List.forall_mem_cons] at h
    exact happend _ _ (h.1 n) (ih h.2 _)

theorem Neat.collect {α : Type} {f : α → Numbered (List Step)} {xs : List α}
    (h : ∀ x ∈ xs, ∀ n, Neat named ((f x).run n).1) (n : Nat) :
    Neat named ((collect f xs).run n).1 :=
  collect_induction .nil (fun _ _ => .append) h n

/-- A text that makes a line which opens no block. -/
structure IsPlain (t : String) : Prop where
  feedless : Feedless t
  last : t.toList.getLast? ≠ some '\x7b'

/-- What a line ends in decides whether it opens a block. -/
theorem getLast?_append_ne {b : String} (h : b.toList.getLast?.any (· ≠ '\x7b')) (a : String) :
    (a ++ b).toList.getLast? ≠ some '\x7b' := by
  obtain ⟨c, hc, hne⟩ := (Option.any_eq_true ..).mp h
  rw [String.toList_append, List.getLast?_append, hc, Option.some_or]
  exact fun h => of_decide_eq_true hne (Option.some.inj h)

theorem IsPlain.append {a b : String} (ha : Feedless a) (hb : Feedless b)
    (hlast : b.toList.getLast?.any (· ≠ '\x7b')) : IsPlain (a ++ b) :=
  ⟨ha.append hb, getLast?_append_ne hlast a⟩

/-- An item that closes the blocks that it opens, and whose texts are lines. -/
def Item.Neat (named : Prop) : Item → Prop
  | raw text => IsPlain text
  | blank => True
  | prototype _ signature => Feedless signature.text
  | definition _ signature body => IsLine True signature.text ∧ C.Neat named body
  | group head body tail => IsLine True head ∧ C.Neat named body ∧ IsPlain ("\x7d" ++ tail)

/-- Every item of the code is neat. -/
def NeatItems (named : Prop) (items : List Item) : Prop := ∀ item ∈ items, item.Neat named

namespace NeatItems
variable {named : Prop} {item : Item} {items items' : List Item}

theorem nil : NeatItems named [] := fun _ h => (List.not_mem_nil h).elim

theorem append (h : NeatItems named items) (h' : NeatItems named items') :
    NeatItems named (items ++ items') :=
  List.forall_mem_append.mpr ⟨h, h'⟩

theorem cons (h : item.Neat named) (h' : NeatItems named items) :
    NeatItems named (item :: items) :=
  List.forall_mem_cons.mpr ⟨h, h'⟩

theorem blank (h : NeatItems named items) : NeatItems named (.blank :: items) := cons trivial h

theorem definition (role : Role) {signature : Signature} {body : List Step}
    (hsignature : IsLine True signature.text) (hbody : Neat named body)
    (h : NeatItems named items) : NeatItems named (.definition role signature body :: items) :=
  cons ⟨hsignature, hbody⟩ h

theorem map {α : Type} {f : α → Item} {xs : List α} (h : ∀ x ∈ xs, (f x).Neat named) :
    NeatItems named (xs.map f) :=
  List.forall_mem_map.mpr h

theorem flatMap {α : Type} {f : α → List Item} {xs : List α}
    (h : ∀ x ∈ xs, NeatItems named (f x)) : NeatItems named (xs.flatMap f) := by
  intro item hitem
  obtain ⟨x, hx, hitem⟩ := List.mem_flatMap.mp hitem
  exact h x hx item hitem

theorem collect {α : Type} {f : α → Numbered (List Item)} {xs : List α}
    (h : ∀ x ∈ xs, ∀ n, NeatItems named ((f x).run n).1) (n : Nat) :
    NeatItems named ((collect f xs).run n).1 :=
  collect_induction nil (fun _ _ => append) h n

end NeatItems

/-- An item that is in balance. The texts of a comment need not be lines. -/
structure Item.Even (named : Prop) (item : Item) : Prop where
  balanced : Balanced item.steps
  lines : ∀ step ∈ item.steps, ∀ t ∈ step.content?, IsLine named t

theorem IsLine.of_true (h : IsLine True t) : IsLine named t :=
  ⟨⟨h.starts.1, fun _ => h.starts.2 trivial⟩, h.feedless⟩

theorem Neat.even (h : Neat named item.steps) : item.Even named where
  balanced := h.balanced
  lines step hstep t ht := by
    obtain ⟨u, hu, hline⟩ := h.lines step hstep
    rwa [Option.mem_unique ht hu]

/-- A step that is not indented and leaves the margin where it is. -/
theorem Item.Even.of_step (hitem : item.steps = [step]) (hdepth : ∀ n, step.depth? n = some n)
    (h : step.content? = none) : item.Even named where
  balanced n := by
    rw [hitem, depth?_cons, hdepth]
    rfl
  lines := by
    rw [hitem]
    refine List.forall_mem_singleton.mpr fun t ht => ?_
    rw [h] at ht
    cases ht

theorem Item.even_raw (named : Prop) (t : String) : (Item.raw t).Even named :=
  .of_step rfl (fun _ => rfl) rfl

theorem Item.even_blank (named : Prop) : Item.blank.Even named := .of_step rfl (fun _ => rfl) rfl

theorem Item.Neat.even (h : item.Neat named) : item.Even named := by
  cases item with
  | raw t => exact even_raw named t
  | blank => exact even_blank named
  | prototype => exact .of_step rfl (fun _ => rfl) rfl
  | definition role signature body => exact (C.Neat.block h.1.of_true h.2).even
  | group head body tail =>
    obtain ⟨hhead, hbody, htail⟩ := h
    have htail : Feedless tail := by
      have hfeed := htail.feedless
      rw [Feedless, String.toList_append, List.mem_append, not_or] at hfeed
      exact hfeed.2
    exact (C.Neat.blockWith (.inr hhead.of_true) hbody htail).even

/-! ## Files -/

/-- The text of a file of items, laid out by blocks. Its steps are looked at one by one, each behind
those before it. -/
structure LaidOut (named : Prop) (items : List Item) (text : String) : Prop where
  /-- At the end the text is written, and no block is open. -/
  finish : Writer.after (items.flatMap Item.steps) = ⟨text, 0⟩
  /-- No block is open in front of a top-level item or behind it. -/
  outside : ∀ before item after, items = before ++ item :: after →
    (Writer.after (before.flatMap Item.steps)).indent = 0 ∧
      (Writer.after ((before ++ [item]).flatMap Item.steps)).indent = 0
  /-- The margin is the number of blocks that were opened and not closed. -/
  counted : ∀ before after, items.flatMap Item.steps = before ++ after →
    opened before = closed before + (Writer.after before).indent
  /-- A block is closed only where one is open. -/
  closes : ∀ before tail after, items.flatMap Item.steps = before ++ .closeBlock tail :: after →
    1 ≤ (Writer.after before).indent
  /-- An indented line has two blanks in front for each block that is open around it; the one that
  it closes is none of these. -/
  lines : ∀ before step after t, items.flatMap Item.steps = before ++ step :: after →
    t ∈ step.content? →
    ∃ depth, opened before = closed (before ++ [step]) + depth ∧
      (Writer.after (before ++ [step])).text = (Writer.after before).text
        ++ (String.ofList (List.replicate (2 * depth) ' ') ++ t ++ "\n") ∧
      IsLine named t

theorem lineText_of_ne (h : t ≠ "") (n : Nat) : lineText n t = margin n ++ t ++ "\n" := by
  rw [lineText, if_neg (by simpa using h)]

/-- A step writes its line at the margin that counts the blocks around it. -/
theorem Step.output_of_content {n : Nat} (ht : t ∈ step.content?) (hne : t ≠ "")
    (hclosing : step.isClosing → 1 ≤ n) :
    ∃ depth, n = closed [step] + depth ∧ step.output n = margin depth ++ t ++ "\n" := by
  cases step with
  | line text =>
    cases ht
    exact ⟨n, (Nat.zero_add n).symm, lineText_of_ne hne n⟩
  | openBlock head =>
    cases ht
    exact ⟨n, (Nat.zero_add n).symm, lineText_of_ne hne n⟩
  | closeBlock tail =>
    cases ht
    have := hclosing rfl
    refine ⟨n - 1, ?_, lineText_of_ne hne (n - 1)⟩
    change n = 1 + (n - 1)
    omega
  | blank | raw => cases ht

theorem laidOut_of_even {items : List Item} (h : ∀ item ∈ items, item.Even named) :
    LaidOut named items (Item.render items) := by
  have hbalanced {items : List Item} (h : ∀ item ∈ items, item.Even named) :
      Balanced (items.flatMap Item.steps) :=
    .flatMap fun item hitem => (h item hitem).balanced
  have hclosing {before : List Step} {step : Step} {after : List Step}
      (hsplit : items.flatMap Item.steps = before ++ step :: after) :
      step.isClosing → 1 ≤ (Writer.after before).indent := by
    obtain ⟨-, hrest⟩ := Balanced.split (hsplit ▸ hbalanced h)
    -- counting does not fail at the step, so there is a block for it to close
    rw [depth?_cons] at hrest
    obtain ⟨m, hstep, -⟩ := Option.bind_eq_some_iff.mp hrest
    exact (Step.of_depth? hstep).2.2
  refine ⟨congrArg (Writer.mk _) (hbalanced h).indent_after, ?_, ?_, ?_, ?_⟩
  · rintro before item after rfl
    rw [List.forall_mem_append, List.forall_mem_cons] at h
    have hbefore : ∀ item ∈ before, item.Even named := h.1
    have hitem : ∀ item' ∈ before ++ [item], item'.Even named :=
      List.forall_mem_append.mpr ⟨hbefore, List.forall_mem_singleton.mpr h.2.1⟩
    exact ⟨(hbalanced hbefore).indent_after, (hbalanced hitem).indent_after⟩
  · intro before after hsplit
    exact (Balanced.split (hsplit ▸ hbalanced h)).1
  · intro before tail after hsplit
    exact hclosing hsplit rfl
  · intro before step after t hsplit ht
    have hmem : step ∈ items.flatMap Item.steps := by simp [hsplit]
    obtain ⟨item, hitem, hstep⟩ := List.mem_flatMap.mp hmem
    have hline := (h item hitem).lines step hstep t ht
    have hcount := (Balanced.split (hsplit ▸ hbalanced h)).1
    obtain ⟨depth, hdepth, houtput⟩ :=
      Step.output_of_content ht hline.starts.1 (hclosing hsplit)
    refine ⟨depth, ?_, ?_, hline⟩
    · rw [hcount, closed_append, hdepth, Nat.add_assoc]
    · rw [Writer.after_concat]
      exact congrArg ((Writer.after before).text ++ ·) houtput

end NativeInterface.C
