import Mathlib.Data.List.Forall2
import NativeInterface.Proofs.Canonical
import NativeInterface.Proofs.Layout

/-!
# Reading a surface form

The surface form of an expression is read as its tokens (`Expr.kinds`) in front of any text that no
name or number goes on with. Forms are put together from the texts of tokens and from blanks, so
this is shown piece by piece.
-/

namespace NativeInterface
open Token (Kind)

namespace Lexeme

/-! ## Pieces of text -/

/-- In front of any rest that `p` allows, `text` is read as the tokens `ks`. -/
def Spells (p : List Char → Prop) (text : List Char) (ks : List Kind) : Prop :=
  ∀ rest, p rest → skim (all (text ++ rest)) = ks.map (.token · none) ++ skim (all rest)

theorem all_cons (c : Char) (cs : List Char) :
    all (c :: cs) = ⟨c :: (scan c cs).2, (scan c cs).1⟩ :: all (cs.drop (scan c cs).2.length) := by
  rw [all]

theorem skim_of_scan {c : Char} {tail rest : List Char} {r : Reading}
    (h : scan c (tail ++ rest) = (r, tail)) (hr : r ≠ .blank) :
    skim (all (c :: (tail ++ rest))) = r :: skim (all rest) := by
  rw [all_cons, h, List.drop_left]
  exact skim_cons rfl hr

theorem skim_takeWhile {c : Char} {cs : List Char} {p : Char → Bool}
    (h : scan c cs = (.blank, cs.takeWhile p)) :
    skim (all (c :: cs)) = skim (all (cs.dropWhile p)) := by
  have hdrop : cs.drop (cs.takeWhile p).length = cs.dropWhile p := by
    have hsplit : cs.takeWhile p ++ cs.dropWhile p = cs := List.takeWhile_append_dropWhile
    calc cs.drop (cs.takeWhile p).length
      _ = (cs.takeWhile p ++ cs.dropWhile p).drop (cs.takeWhile p).length := by rw [hsplit]
      _ = cs.dropWhile p := List.drop_left
  rw [all_cons, h, hdrop]
  exact skim_cons_blank rfl

theorem skim_space {c : Char} (hc : isSpace c) (cs : List Char) :
    skim (all (c :: cs)) = skim (all (cs.dropWhile isSpace)) :=
  skim_takeWhile (by simp [scan, hc])

theorem skim_dropWhile (cs : List Char) : skim (all (cs.dropWhile isSpace)) = skim (all cs) := by
  cases cs with
  | nil => rfl
  | cons c cs =>
    by_cases hc : isSpace c
    · rw [List.dropWhile_cons_of_pos hc, skim_space hc]
    · rw [List.dropWhile_cons_of_neg hc]

theorem skim_lineFeed (cs : List Char) :
    skim (all ('\n' :: cs)) = .lineFeed :: skim (all cs) := by
  have hscan : scan '\n' ([] ++ cs) = (.lineFeed, []) := rfl
  exact skim_of_scan hscan nofun

section
variable {p q : List Char → Prop} {text text' : List Char} {ks ls : List Kind}

theorem Spells.append (h : Spells p text ks) (h' : Spells q text' ls)
    (hp : ∀ rest, q rest → p (text' ++ rest)) : Spells q (text ++ text') (ks ++ ls) := by
  intro rest hrest
  rw [List.append_assoc, h _ (hp rest hrest), h' rest hrest, List.map_append, List.append_assoc]

theorem spells_nil : Spells p [] [] := fun _ _ => rfl

theorem spells_space : Spells p [' '] [] := fun rest _ =>
  (skim_space rfl rest).trans (skim_dropWhile rest)

theorem spells_token {k : Kind} (hk : k.Spelled) (hp : ∀ rest, p rest → k.goesOn → ends rest) :
    Spells p k.text.toList [k] := by
  intro rest hrest
  obtain ⟨c, tail, htext, hscan⟩ := scan_text hk (hp rest hrest)
  rw [htext]
  exact skim_of_scan hscan nofun

theorem spells_mark {k : Kind} (hk : k.Spelled) (hmark : k.goesOn = false) :
    Spells p k.text.toList [k] :=
  spells_token hk fun _ _ hgoesOn => by rw [hmark] at hgoesOn; cases hgoesOn

theorem spells_word {k : Kind} (hk : k.Spelled) : Spells (ends ·) k.text.toList [k] :=
  spells_token hk fun _ hrest _ => hrest

end

/-- Texts with a separator between them that ends each of them. -/
theorem Spells.join {sep : String} {k : Kind} (hsep : Spells (fun _ => True) sep.toList [k])
    (hends : ∀ rest, ends (sep.toList ++ rest)) {texts : List String} {kss : List (List Kind)}
    (h : List.Forall₂ (fun text ks => Spells (ends ·) text.toList ks) texts kss) :
    Spells (ends ·) (Text.join sep texts).toList (Grammar.separated k kss) := by
  induction h with
  | nil => exact spells_nil
  | @cons text ks texts kss h htexts ih =>
    cases htexts with
    | nil => exact h
    | cons h' htexts' =>
      rw [Text.join, String.toList_append, String.toList_append,
        Grammar.separated_cons (List.cons_ne_nil _ _), List.append_assoc]
      · exact h.append (hsep.append ih fun _ _ => trivial) fun rest _ => by
          rw [List.append_assoc]
          exact hends _
      · nofun

/-- A text between brackets. -/
theorem Spells.bracket {text : List Char} {ks : List Kind} (h : Spells (ends ·) text ks)
    (first last : Kind) (hfirst : first.opens) (hlast : last.closes) {p : List Char → Prop} :
    Spells p (first.text.toList ++ (text ++ last.text.toList)) (first :: (ks ++ [last])) := by
  have hopen : first.Spelled ∧ first.goesOn = false := by
    cases first with
    | lparen | lbracket | lbrace => exact ⟨trivial, rfl⟩
    | _ => cases hfirst
  have hclose : last.Spelled ∧ last.goesOn = false ∧ ∀ rest, ends (last.text.toList ++ rest) := by
    cases last with
    | rparen | rbracket | rbrace => exact ⟨trivial, rfl, fun _ => rfl⟩
    | _ => cases hlast
  refine (spells_mark hopen.1 hopen.2).append (p := fun _ => True) (h.append ?_ ?_) ?_
  · exact spells_mark hclose.1 hclose.2.1
  · exact fun rest _ => hclose.2.2 rest
  · exact fun _ _ => trivial

/-- Two texts with a token between blanks between them. -/
theorem Spells.operator {text text' : List Char} {ks ls : List Kind}
    (h : Spells (ends ·) text ks) (h' : Spells (ends ·) text' ls) (k : Kind) (hk : k.Spelled)
    (hmark : k.goesOn = false) :
    Spells (ends ·) (text ++ (' ' :: (k.text.toList ++ [' ']) ++ text')) (ks ++ k :: ls) := by
  have hblanks : Spells (fun _ => True) ([' '] ++ (k.text.toList ++ [' '])) ([] ++ ([k] ++ [])) :=
    spells_space.append (p := fun _ => True)
      ((spells_mark hk hmark).append (p := fun _ => True) spells_space fun _ _ => trivial)
      fun _ _ => trivial
  exact h.append (hblanks.append h' fun _ _ => trivial) fun _ _ => rfl

/-- A comma and a blank. -/
theorem spells_comma {p : List Char → Prop} : Spells p (", ").toList [.comma] :=
  (spells_mark (k := .comma) trivial rfl).append (p := fun _ => True) spells_space
    fun _ _ => trivial

/-- Texts with commas between them. -/
theorem spells_commas {texts : List String} {kss : List (List Kind)}
    (h : List.Forall₂ (fun text ks => Spells (ends ·) text.toList ks) texts kss) :
    Spells (ends ·) (Text.join ", " texts).toList (Grammar.separated .comma kss) :=
  .join spells_comma (fun _ => rfl) h

end Lexeme

namespace Grammar

theorem mem_separated {sep k : Kind} {kss : List (List Kind)} {ks : List Kind} (hks : ks ∈ kss)
    (hk : k ∈ ks) : k ∈ separated sep kss := by
  induction kss with
  | nil => cases hks
  | cons ls kss ih =>
    by_cases hnil : kss = []
    · subst hnil
      rw [List.mem_singleton.mp hks] at hk
      exact hk
    · rw [separated_cons hnil]
      rcases List.mem_cons.mp hks with rfl | hks
      · exact List.mem_append_left _ hk
      · exact List.mem_append_right _ (List.mem_cons_of_mem _ (ih hks))

theorem spelled_of_separated {sep : Kind} {kss : List (List Kind)}
    (h : ∀ k ∈ separated sep kss, k.Spelled) : ∀ ks ∈ kss, ∀ k ∈ ks, k.Spelled :=
  fun _ hks k hk => h k (mem_separated hks hk)

end Grammar

namespace Expr
open Lexeme Grammar

theorem spells_nameKinds {parts : List String} (h : ∀ k ∈ nameKinds parts, k.Spelled) :
    Spells (ends ·) (Text.join "." parts).toList (nameKinds parts) := by
  refine .join (spells_mark (k := .dot) trivial rfl) (fun _ => rfl) ?_
  rw [List.forall₂_map_right_iff, List.forall₂_same]
  intro part hpart
  have hpart := spelled_of_separated h [.segment part] (List.mem_map_of_mem hpart)
  have hword := spells_word (List.forall_mem_singleton.mp hpart)
  exact hword

mutual

theorem spells_kinds : (e : Expr) → (∀ k ∈ e.kinds, k.Spelled) →
    Spells (ends ·) e.text.toList e.kinds
  | ident name _, h | atom name _, h | int value _, h | str value _, h => by
    rw [kinds, List.forall_mem_singleton] at h
    have hword := spells_word h
    rw [text, kinds]
    exact hword
  | dotted parts _, h => by
    rw [kinds] at h
    rw [text, kinds]
    exact spells_nameKinds h
  | list items _, h => by
    rw [kinds, List.forall_mem_cons, List.forall_mem_append] at h
    have hitems := spells_commas (spells_each items (spelled_of_separated h.2.1))
    rw [text, kinds, String.toList_append, String.toList_append, List.append_assoc]
    exact hitems.bracket .lbracket .rbracket rfl rfl
  | tuple items _, h => by
    rw [kinds, List.forall_mem_cons, List.forall_mem_append] at h
    have hitems := spells_commas (spells_each items (spelled_of_separated h.2.1))
    rw [text, kinds, String.toList_append, String.toList_append, List.append_assoc]
    exact hitems.bracket .lbrace .rbrace rfl rfl
  | call name args _, h => by
    rw [kinds, List.forall_mem_cons, List.forall_mem_cons, List.forall_mem_append] at h
    have hword := spells_word h.1
    have hargs := spells_commas (spells_each args (spelled_of_separated h.2.2.1))
    rw [text, kinds, String.toList_append, String.toList_append, String.toList_append,
      List.append_assoc, List.append_assoc]
    exact hword.append (hargs.bracket .lparen .rparen rfl rfl) fun _ _ => rfl
  | typed lhs rhs _, h => by
    rw [kinds, List.forall_mem_append, List.forall_mem_cons] at h
    rw [text, kinds, String.toList_append, String.toList_append, List.append_assoc]
    exact (spells_kinds lhs h.1).operator (spells_kinds rhs h.2.2) .colonColon trivial rfl
  | alt lhs rhs _, h => by
    rw [kinds, List.forall_mem_append, List.forall_mem_cons] at h
    rw [text, kinds, String.toList_append, String.toList_append, List.append_assoc]
    exact (spells_kinds lhs h.1).operator (spells_kinds rhs h.2.2) .pipe trivial rfl
  | map name entries _, h => by
    rw [kinds, List.forall_mem_cons, List.forall_mem_append, List.forall_mem_cons,
      List.forall_mem_append] at h
    have hmark : Spells (fun _ => True) ("%").toList [.percent] :=
      spells_mark (k := .percent) trivial rfl
    have hentries := spells_commas (spells_pairs entries (spelled_of_separated h.2.2.2.1))
    have hbody := (spells_nameKinds h.2.1).append (hentries.bracket .lbrace .rbrace rfl rfl)
      fun rest (_ : ends rest) => rfl
    rw [text, kinds, String.toList_append, String.toList_append, String.toList_append,
      String.toList_append, List.append_assoc, List.append_assoc, List.append_assoc]
    exact hmark.append hbody fun _ _ => trivial
  | keyword pairs _, h => by
    rw [kinds] at h
    rw [text, kinds]
    exact spells_commas (spells_pairs pairs (spelled_of_separated h))

theorem spells_each : (es : List Expr) → (∀ ks ∈ kindsOfEach es, ∀ k ∈ ks, k.Spelled) →
    List.Forall₂ (fun text ks => Spells (ends ·) text.toList ks) (texts es) (kindsOfEach es)
  | [], _ => .nil
  | e :: es, h => by
    rw [kindsOfEach, List.forall_mem_cons] at h
    exact .cons (spells_kinds e h.1) (spells_each es h.2)

theorem spells_pairs : (pairs : List (Ident × Expr)) →
    (∀ ks ∈ kindsOfPairs pairs, ∀ k ∈ ks, k.Spelled) →
    List.Forall₂ (fun text ks => Spells (ends ·) text.toList ks) (pairTexts pairs)
      (kindsOfPairs pairs)
  | [], _ => .nil
  | (key, value) :: rest, h => by
    rw [kindsOfPairs, List.forall_mem_cons, List.forall_mem_cons] at h
    have hkey : Spells (fun _ => True) (key.name ++ ": ").toList [.key key.name] := by
      have htext : (key.name ++ ": ").toList = (Kind.key key.name).text.toList ++ [' '] := by
        simp [Kind.text]
      rw [htext]
      exact (spells_word h.1.1).append spells_space fun _ _ => rfl
    refine .cons ?_ (spells_pairs rest h.2)
    rw [String.toList_append]
    exact hkey.append (spells_kinds value h.1.2) fun _ _ => trivial

end

theorem spells_items {es : List Expr} (h : ∀ k ∈ separated .comma (kindsOfEach es), k.Spelled) :
    Spells (ends ·) (Text.join ", " (texts es)).toList (separated .comma (kindsOfEach es)) :=
  spells_commas (spells_each es (spelled_of_separated h))

end Expr

end NativeInterface
