import NativeInterface.Proofs.ParserExact

/-!
# Reading inside a line

A reader looks at tokens up to the end of the line and no further, and at a place only to hand it
on. So token lists that look the same up to the end of the line are read alike
(`View.agree_line`). How much of places and of kinds is looked at is a parameter (`View`): all
places and no kinds in messages show that a line is read by itself, no places and all kinds show
that reading is a matter of kinds.

Each proof follows the recursion of its reader on one cursor and takes the same steps on the other.
-/

namespace NativeInterface
open Token (Kind)

/-! ## Trees under a map of places -/

namespace Expr

mutual

/-- The expression with its places mapped. -/
def mapPlaces (f : Span → Span) : Expr → Expr
  | ident name s => ident name (f s)
  | dotted parts s => dotted parts (f s)
  | atom name s => atom name (f s)
  | int value s => int value (f s)
  | str value s => str value (f s)
  | list items s => list (mapPlacesAll f items) (f s)
  | tuple items s => tuple (mapPlacesAll f items) (f s)
  | call name args s => call ⟨name.name, f name.span⟩ (mapPlacesAll f args) (f s)
  | typed lhs rhs s => typed (lhs.mapPlaces f) (rhs.mapPlaces f) (f s)
  | alt lhs rhs s => alt (lhs.mapPlaces f) (rhs.mapPlaces f) (f s)
  | map name entries s => map name (mapPlacesPairs f entries) (f s)
  | keyword pairs s => keyword (mapPlacesPairs f pairs) (f s)

def mapPlacesAll (f : Span → Span) : List Expr → List Expr
  | [] => []
  | e :: es => e.mapPlaces f :: mapPlacesAll f es

def mapPlacesPairs (f : Span → Span) : List (Ident × Expr) → List (Ident × Expr)
  | [] => []
  | (key, value) :: rest =>
    (⟨key.name, f key.span⟩, value.mapPlaces f) :: mapPlacesPairs f rest

end

theorem span_mapPlaces (f : Span → Span) (e : Expr) : (e.mapPlaces f).span = f e.span := by
  cases e <;> rfl

theorem span_of_mapPlaces {f : Span → Span} {e e' : Expr} (h : e.mapPlaces f = e'.mapPlaces f) :
    f e.span = f e'.span := by
  rw [← span_mapPlaces f e, h, span_mapPlaces]

mutual

theorem mapPlaces_id : ∀ e : Expr, e.mapPlaces id = e
  | ident .. | dotted .. | atom .. | int .. | str .. => rfl
  | list items _ => by rw [mapPlaces, mapPlacesAll_id items, id]
  | tuple items _ => by rw [mapPlaces, mapPlacesAll_id items, id]
  | call _ args _ => by rw [mapPlaces, mapPlacesAll_id args, id, id]
  | typed lhs rhs _ => by rw [mapPlaces, mapPlaces_id lhs, mapPlaces_id rhs, id]
  | alt lhs rhs _ => by rw [mapPlaces, mapPlaces_id lhs, mapPlaces_id rhs, id]
  | map _ entries _ => by rw [mapPlaces, mapPlacesPairs_id entries, id]
  | keyword pairs _ => by rw [mapPlaces, mapPlacesPairs_id pairs, id]

theorem mapPlacesAll_id : ∀ es : List Expr, mapPlacesAll id es = es
  | [] => rfl
  | e :: es => by rw [mapPlacesAll, mapPlaces_id e, mapPlacesAll_id es]

theorem mapPlacesPairs_id : ∀ ps : List (Ident × Expr), mapPlacesPairs id ps = ps
  | [] => rfl
  | (_, value) :: rest => by rw [mapPlacesPairs, mapPlaces_id value, mapPlacesPairs_id rest]; rfl

end

mutual

theorem mapPlaces_const : ∀ e : Expr, e.mapPlaces (fun _ => {}) = e.unplaced
  | ident .. | dotted .. | atom .. | int .. | str .. => rfl
  | list items _ | tuple items _ => by rw [mapPlaces, mapPlacesAll_const items, unplaced]
  | call _ args _ => by rw [mapPlaces, mapPlacesAll_const args, unplaced]
  | typed lhs rhs _ | alt lhs rhs _ => by
    rw [mapPlaces, mapPlaces_const lhs, mapPlaces_const rhs, unplaced]
  | map _ entries _ => by rw [mapPlaces, mapPlacesPairs_const entries, unplaced]
  | keyword pairs _ => by rw [mapPlaces, mapPlacesPairs_const pairs, unplaced]

theorem mapPlacesAll_const : ∀ es : List Expr, mapPlacesAll (fun _ => {}) es = unplacedAll es
  | [] => rfl
  | e :: es => by rw [mapPlacesAll, mapPlaces_const e, mapPlacesAll_const es, unplacedAll]

theorem mapPlacesPairs_const :
    ∀ ps : List (Ident × Expr), mapPlacesPairs (fun _ => {}) ps = unplacedPairs ps
  | [] => rfl
  | (_, value) :: rest => by
    rw [mapPlacesPairs, mapPlaces_const value, mapPlacesPairs_const rest, unplacedPairs]

end

end Expr

/-- The declaration with its places mapped. -/
def Declaration.mapPlaces (f : Span → Span) (d : Declaration) : Declaration :=
  ⟨⟨d.kind.name, f d.kind.span⟩, Expr.mapPlacesAll f d.payload, f d.span⟩

theorem Declaration.mapPlaces_id (d : Declaration) : d.mapPlaces id = d := by
  rw [mapPlaces, Expr.mapPlacesAll_id]
  rfl

theorem Declaration.mapPlaces_const (d : Declaration) : d.mapPlaces (fun _ => {}) = d.unplaced := by
  rw [mapPlaces, Expr.mapPlacesAll_const]
  rfl

/-- The cause with the kind of the token that was found mapped. -/
def ParseFault.mapFound (f : Kind → Kind) : ParseFault → ParseFault
  | expectedEnd got => expectedEnd (f got)
  | endOfDeclaration => endOfDeclaration
  | expectedExpression got => expectedExpression (f got)
  | expected wanted got => expected wanted (f got)
  | expectedIdentifier got => expectedIdentifier (f got)
  | expectedName got => expectedName (f got)
  | expectedKey got => expectedKey (f got)
  | tooDeep => tooDeep

theorem ParseFault.code_mapFound (f : Kind → Kind) (cause : ParseFault) :
    (cause.mapFound f).code = cause.code := by
  cases cause <;> rfl

theorem ParseFault.mapFound_id (cause : ParseFault) : cause.mapFound id = cause := by
  cases cause <;> rfl

namespace Parser

/-! ## Lines that look the same -/

/-- How much two readings are told apart by: places as `place` shows them, and kinds in messages as
`kind` shows them. -/
structure View where
  place : Span → Span
  kind : Kind → Kind
  merge : ∀ {a a' b b' : Span}, place a = place a' → place b = place b' →
    place (a.merge b) = place (a'.merge b')

namespace View
variable (v : View) {c c' : Cursor}

/-- The tokens look the same up to the end of the line. -/
inductive SameLine : List Token → List Token → Prop
  | stop : (nextKind ts).endsLine → (nextKind ts').endsLine →
    v.kind (nextKind ts) = v.kind (nextKind ts') → SameLine ts ts'
  | cons {t t' : Token} {ts ts' : List Token} : t.kind = t'.kind →
    v.place t.span = v.place t'.span → SameLine ts ts' → SameLine (t :: ts) (t' :: ts')

/-- The cursors stand behind tokens at the same place, and in front of the same line. -/
structure Same (c c' : Cursor) : Prop where
  before : v.place c.before = v.place c'.before
  ahead : v.SameLine c.ahead c'.ahead

variable {v}

namespace SameLine
variable {ts ts' : List Token}

theorem symm (h : v.SameLine ts ts') : v.SameLine ts' ts := by
  induction h with
  | stop h h' hkind => exact .stop h' h hkind.symm
  | cons hkind hplace _ ih => exact .cons hkind.symm hplace.symm ih

theorem kind_eq_or (h : v.SameLine ts ts') :
    nextKind ts = nextKind ts' ∨ (nextKind ts).endsLine ∧ (nextKind ts').endsLine := by
  cases h with
  | stop hts hts' => exact .inr ⟨hts, hts'⟩
  | cons hkind => exact .inl hkind

theorem view_kind (h : v.SameLine ts ts') : v.kind (nextKind ts) = v.kind (nextKind ts') := by
  cases h with
  | stop _ _ hkind => exact hkind
  | cons hkind => exact congrArg v.kind hkind

end SameLine

namespace Same
variable {c c' : Cursor}

theorem symm (h : v.Same c c') : v.Same c' c := ⟨h.before.symm, h.ahead.symm⟩

variable (h : v.Same c c')
include h

theorem kind_eq_or : c.kind = c'.kind ∨ c.kind.endsLine ∧ c'.kind.endsLine := by
  rw [Cursor.kind_eq, Cursor.kind_eq]
  exact h.ahead.kind_eq_or

theorem view_kind : v.kind c.kind = v.kind c'.kind := by
  rw [Cursor.kind_eq, Cursor.kind_eq]
  exact h.ahead.view_kind

theorem endsLine : c'.kind.endsLine = c.kind.endsLine := by
  rcases h.kind_eq_or with hkind | ⟨hc, hc'⟩
  · rw [hkind]
  · rw [hc, hc']

/-- A kind inside a line stands in front of both or of none. -/
theorem kind_eq {k : Kind} (hk : k.endsLine = false) (hc : c.kind = k) : c'.kind = k := by
  rcases h.kind_eq_or with hkind | ⟨hend, -⟩
  · rw [← hkind, hc]
  · rw [hc, hk] at hend
    cases hend

theorem stops_iff (close : Kind) :
    (c'.kind = close ∨ c'.kind.endsLine) ↔ (c.kind = close ∨ c.kind.endsLine) := by
  rcases h.kind_eq_or with hkind | ⟨hc, hc'⟩
  · rw [hkind]
  · exact ⟨fun _ => .inr hc, fun _ => .inr hc'⟩

theorem next {t : Token} {d : c.Later} (hnext : c.next = some (t, d))
    (ht : t.kind.endsLine = false) :
    ∃ span d', c'.next = some (⟨t.kind, span⟩, d') ∧ v.place t.span = v.place span ∧
      v.Same d.val d'.val := by
  obtain ⟨before, ahead⟩ := c
  obtain ⟨before', ahead'⟩ := c'
  cases ahead with
  | nil => cases hnext
  | cons t ts =>
    cases hnext
    cases h.ahead with
    | stop hc =>
      rw [nextKind_cons, ht] at hc
      cases hc
    | @cons _ t' _ ts' hkind hplace hts =>
      exact ⟨t'.span, ⟨⟨t'.span, ts'⟩, by simp⟩, by rw [hkind]; rfl, hplace, hplace, hts⟩

theorem span (hc : c.kind.endsLine = false) : v.place c.span = v.place c'.span := by
  obtain ⟨before, ahead⟩ := c
  obtain ⟨before', ahead'⟩ := c'
  rw [Cursor.kind_eq] at hc
  cases h.ahead with
  | stop hend =>
    rw [hc] at hend
    cases hend
  | cons _ hplace => exact hplace

section
variable {k : Kind} (hk : k.endsLine = false)
include hk

theorem accept {d : c.Later} (haccept : c.accept k = some d) :
    ∃ d', c'.accept k = some d' ∧ v.Same d.val d'.val := by
  unfold Cursor.accept at haccept ⊢
  split at haccept
  · rename_i t e hnext
    split at haccept
    · rename_i ht
      cases haccept
      obtain ⟨span, d', hnext', -, hd⟩ := h.next hnext (by rw [ht, hk])
      exact ⟨d', by rw [hnext']; exact if_pos ht, hd⟩
    · cases haccept
  · cases haccept

theorem accept_eq_none (haccept : c.accept k = none) : c'.accept k = none := by
  cases haccept' : c'.accept k with
  | none => rfl
  | some d' =>
    obtain ⟨d, hd, -⟩ := h.symm.accept hk haccept'
    rw [haccept] at hd
    cases hd

end

end Same

/-! ## Readings that look the same -/

/-- Both readings find the same, as far as `R` tells, or both fail for causes that look the same. -/
inductive Agree (v : View) {α β : Type} (R : α → β → Prop) :
    Except (Located ParseFault) α → Except (Located ParseFault) β → Prop
  | ok : R a b → Agree v R (.ok a) (.ok b)
  | error : cause.mapFound v.kind = cause'.mapFound v.kind →
    Agree v R (.error ⟨cause, span⟩) (.error ⟨cause', span'⟩)

/-- The same things, seen through `see`, in front of lines that look the same. -/
def Both {α β : Type} {Q Q' : Cursor → Prop} (v : View) (see : α → β)
    (x : α × { d : Cursor // Q d }) (y : α × { d : Cursor // Q' d }) : Prop :=
  see x.1 = see y.1 ∧ v.Same x.2.val y.2.val

theorem Agree.bind {α β γ δ : Type} {R : α → β → Prop} {S : γ → δ → Prop}
    {x : Except (Located ParseFault) α} {y : Except (Located ParseFault) β}
    {f : α → Except (Located ParseFault) γ} {g : β → Except (Located ParseFault) δ}
    (h : v.Agree R x y) (hf : ∀ a b, R a b → v.Agree S (f a) (g b)) :
    v.Agree S (x >>= f) (y >>= g) := by
  cases h with
  | ok hab => exact hf _ _ hab
  | error hcause => exact .error hcause

/-- A fault about the next token looks the same on both sides. -/
theorem Same.fault {α β : Type} {R : α → β → Prop} (h : v.Same c c') {cause : Kind → ParseFault}
    (hcause : ∀ k, (cause k).mapFound v.kind = cause (v.kind k)) :
    v.Agree R (c.fault (cause c.kind)) (c'.fault (cause c'.kind)) := by
  refine .error ?_
  rw [hcause, hcause, h.view_kind]

theorem agree_expect (h : v.Same c c') {k : Kind} (hk : k.endsLine = false) :
    v.Agree (fun d d' => v.Same d.val d'.val) (expect k c) (expect k c') := by
  unfold expect
  cases haccept : c.accept k with
  | some d =>
    obtain ⟨d', haccept', hd⟩ := h.accept hk haccept
    rw [haccept']
    exact .ok hd
  | none =>
    rw [h.accept_eq_none hk haccept]
    exact h.fault fun _ => rfl

theorem agree_dottedName (h : v.Same c c') :
    v.Agree (v.Both id) (dottedName c) (dottedName c') := by
  fun_induction dottedName c generalizing c' with
  | case1 c part span d hnext dotSpan e hdot next hsegment ih =>
    obtain ⟨span', d', hnext', -, hd⟩ := h.next hnext rfl
    obtain ⟨dotSpan', e', hdot', -, he⟩ := hd.next hdot rfl
    rw [dottedName.eq_def c', hnext']
    dsimp only
    rw [hdot']
    dsimp only
    rw [he.kind_eq rfl hsegment]
    refine (ih he).bind fun x y hxy => ?_
    exact .ok ⟨congrArg (part :: ·) hxy.1, hxy.2⟩
  | case2 c part span d hnext dotSpan e hdot hsegment =>
    obtain ⟨span', d', hnext', -, hd⟩ := h.next hnext rfl
    obtain ⟨dotSpan', e', hdot', -, he⟩ := hd.next hdot rfl
    rw [dottedName.eq_def c', hnext']
    dsimp only
    rw [hdot']
    dsimp only
    split
    · rename_i part' hk
      exact absurd (he.symm.kind_eq rfl hk) (hsegment part')
    · exact .ok ⟨rfl, hd⟩
  | case3 c part span d hnext hdot =>
    obtain ⟨span', d', hnext', -, hd⟩ := h.next hnext rfl
    rw [dottedName.eq_def c', hnext']
    dsimp only
    split
    · rename_i dotSpan' e' hdot'
      obtain ⟨dotSpan, e, hdot'', -⟩ := hd.symm.next hdot' rfl
      exact absurd hdot'' (hdot dotSpan e)
    · exact .ok ⟨rfl, hd⟩
  | case4 c hname =>
    rw [dottedName.eq_def c']
    split
    · rename_i part span' d' hnext'
      obtain ⟨span, d, hnext, -⟩ := h.symm.next hnext' rfl
      exact absurd hnext (hname part span d)
    · exact h.fault fun _ => rfl

section
variable {c c' : Cursor} {read : Reader Expr} (hread : ∀ {c c' : Cursor}, v.Same c c' →
  v.Agree (v.Both (Expr.mapPlaces v.place)) (read c) (read c'))
include hread

theorem agree_pairs (close : Kind) (h : v.Same c c') :
    v.Agree (v.Both (Expr.mapPlacesPairs v.place)) (pairs read close c) (pairs read close c') := by
  fun_induction pairs read close c generalizing c' with
  | case1 c name span d hnext ih =>
    obtain ⟨span', d', hnext', hspan, hd⟩ := h.next hnext rfl
    rw [pairs.eq_def read close c', hnext']
    dsimp only
    refine (hread hd).bind ?_
    rintro ⟨value, e⟩ ⟨value', e'⟩ ⟨hvalue, he⟩
    dsimp only at hspan hvalue he ⊢
    have hfirst (rest rest' : List (Ident × Expr))
        (hrest : Expr.mapPlacesPairs v.place rest = Expr.mapPlacesPairs v.place rest') :
        Expr.mapPlacesPairs v.place ((⟨name, span⟩, value) :: rest) =
          Expr.mapPlacesPairs v.place ((⟨name, span'⟩, value') :: rest') := by
      rw [Expr.mapPlacesPairs, Expr.mapPlacesPairs, hspan, hvalue, hrest]
    simp only [he.stops_iff close]
    split
    · exact .ok ⟨hfirst [] [] rfl, he⟩
    · split
      · rename_i f hcomma
        obtain ⟨f', hcomma', hf⟩ := he.accept rfl hcomma
        rw [hcomma']
        refine (ih e f hf).bind fun x y hxy => ?_
        exact .ok ⟨hfirst _ _ hxy.1, hxy.2⟩
      · rename_i hcomma
        rw [he.accept_eq_none rfl hcomma]
        exact .ok ⟨hfirst [] [] rfl, he⟩
  | case2 c hkey =>
    rw [pairs.eq_def read close c']
    split
    · rename_i name span' d' hnext'
      obtain ⟨span, d, hnext, -⟩ := h.symm.next hnext' rfl
      exact absurd hnext (hkey name span d)
    · exact h.fault fun _ => rfl

theorem agree_keywords (close : Kind) (h : v.Same c c') (hc : c.kind.endsLine = false) :
    v.Agree (v.Both (Expr.mapPlaces v.place)) (keywords read close c) (keywords read close c') := by
  refine (agree_pairs hread close h).bind fun x y hxy => .ok ⟨?_, hxy.2⟩
  rw [Expr.mapPlaces, Expr.mapPlaces, hxy.1, v.merge (h.span hc) hxy.2.before]

theorem agree_items {close : Kind} (hclose : close.endsLine = false) (h : v.Same c c') :
    v.Agree (v.Both (Expr.mapPlacesAll v.place)) (items read close c) (items read close c') := by
  fun_induction items read close c generalizing c' with
  | case1 c d hd =>
    obtain ⟨d', hd', hsame⟩ := h.accept hclose hd
    rw [items.eq_def read close c', hd']
    exact .ok ⟨rfl, hsame⟩
  | case2 c hnone name hkey =>
    rw [items.eq_def read close c', h.accept_eq_none hclose hnone, h.kind_eq rfl hkey]
    refine (agree_keywords hread close h (by rw [hkey]; rfl)).bind fun x y hxy => ?_
    refine (agree_expect hxy.2 hclose).bind fun f f' hf => ?_
    exact .ok ⟨congrArg ([·]) hxy.1, hf⟩
  | case3 c hnone hkey ih =>
    rw [items.eq_def read close c', h.accept_eq_none hclose hnone]
    dsimp only
    split
    · rename_i name hname
      exact absurd (h.symm.kind_eq rfl hname) (hkey name)
    · refine (hread h).bind ?_
      rintro ⟨e, d⟩ ⟨e', d'⟩ ⟨he, hd⟩
      dsimp only at he hd ⊢
      split
      · rename_i f hcomma
        obtain ⟨f', hcomma', hf⟩ := hd.accept rfl hcomma
        rw [hcomma']
        refine (ih d f hf).bind fun x y hxy => ?_
        exact .ok ⟨congrArg₂ List.cons he hxy.1, hxy.2⟩
      · rename_i hcomma
        rw [hd.accept_eq_none rfl hcomma]
        refine (agree_expect hd hclose).bind fun f f' hf => ?_
        exact .ok ⟨congrArg ([·]) he, hf⟩

theorem agree_entries (h : v.Same c c') :
    v.Agree (v.Both (Expr.mapPlacesPairs v.place)) (entries read c) (entries read c') := by
  unfold entries
  split
  · rename_i d hclose
    obtain ⟨d', hclose', hd⟩ := h.accept rfl hclose
    rw [hclose']
    exact .ok ⟨rfl, hd⟩
  · rename_i hclose
    rw [h.accept_eq_none rfl hclose]
    refine (agree_pairs hread .rbrace h).bind fun x y hxy => ?_
    refine (agree_expect hxy.2 rfl).bind fun f f' hf => ?_
    exact .ok ⟨hxy.1, hf⟩

omit hread in
theorem primary_of_endsLine {c : Cursor} (hc : c.kind.endsLine) :
    primary read c = c.fault .endOfDeclaration := by
  unfold primary
  split
  · rfl
  · rename_i t d hnext
    have hkind : c.kind = t.kind := by
      rw [Cursor.kind_eq, Cursor.ahead_of_next hnext, nextKind_cons]
    rw [hkind] at hc
    split <;> simp_all [Kind.endsLine]

theorem agree_primary (h : v.Same c c') :
    v.Agree (v.Both (Expr.mapPlaces v.place)) (primary read c) (primary read c') := by
  cases hc : c.kind.endsLine with
  | true =>
    rw [primary_of_endsLine hc, primary_of_endsLine (h.endsLine.trans hc)]
    exact .error rfl
  | false =>
    unfold primary
    split
    · rename_i hnext
      obtain ⟨before, ahead⟩ := c
      cases ahead with
      | nil => cases hc
      | cons t ts => cases hnext
    · rename_i t d hnext
      have hkind : c.kind = t.kind := by
        rw [Cursor.kind_eq, Cursor.ahead_of_next hnext, nextKind_cons]
      obtain ⟨span', d', hnext', hspan, hd⟩ := h.next hnext (hkind ▸ hc)
      rw [hnext']
      dsimp only
      split
      · rename_i name hname
        split
        · rename_i e hparen
          obtain ⟨e', hparen', he⟩ := hd.accept rfl hparen
          rw [hparen']
          refine (agree_items hread rfl he).bind fun x y hxy => .ok ⟨?_, hxy.2⟩
          rw [Expr.mapPlaces, Expr.mapPlaces, hxy.1, hspan, v.merge hspan hxy.2.before]
        · rename_i hparen
          rw [hd.accept_eq_none rfl hparen]
          exact .ok ⟨congrArg (Expr.ident name) hspan, hd⟩
      · refine (agree_dottedName h).bind fun x y hxy => .ok ⟨?_, hxy.2⟩
        rw [Expr.mapPlaces, Expr.mapPlaces, show x.1 = y.1 from hxy.1,
          v.merge hspan hxy.2.before]
      · exact .ok ⟨congrArg (Expr.atom _) hspan, hd⟩
      · exact .ok ⟨congrArg (Expr.int _) hspan, hd⟩
      · exact .ok ⟨congrArg (Expr.str _) hspan, hd⟩
      · refine (agree_items hread rfl hd).bind fun x y hxy => .ok ⟨?_, hxy.2⟩
        rw [Expr.mapPlaces, Expr.mapPlaces, hxy.1, v.merge hspan hxy.2.before]
      · refine (agree_items hread rfl hd).bind fun x y hxy => .ok ⟨?_, hxy.2⟩
        rw [Expr.mapPlaces, Expr.mapPlaces, hxy.1, v.merge hspan hxy.2.before]
      · refine (agree_dottedName hd).bind fun x y hxy => ?_
        refine (agree_expect hxy.2 rfl).bind fun f f' hf => ?_
        refine (agree_entries hread hf).bind fun u w huw => .ok ⟨?_, huw.2⟩
        rw [Expr.mapPlaces, Expr.mapPlaces, show x.1 = y.1 from hxy.1, huw.1,
          v.merge hspan huw.2.before]
      · exact .error rfl
      · exact .error rfl
      · exact .error rfl

theorem agree_alternatives (h : v.Same c c') :
    v.Agree (v.Both (Expr.mapPlaces v.place)) (alternatives read c) (alternatives read c') := by
  fun_induction alternatives read c generalizing c' with
  | case1 c ih =>
    rw [alternatives.eq_def read c']
    refine (agree_primary hread h).bind ?_
    rintro ⟨lhs, d⟩ ⟨lhs', d'⟩ ⟨hlhs, hd⟩
    dsimp only at hlhs hd ⊢
    split
    · rename_i e hpipe
      obtain ⟨e', hpipe', he⟩ := hd.accept rfl hpipe
      rw [hpipe']
      refine (ih d e he).bind fun x y hxy => .ok ⟨?_, hxy.2⟩
      rw [Expr.mapPlaces, Expr.mapPlaces, hlhs, hxy.1,
        v.merge (Expr.span_of_mapPlaces hlhs) (Expr.span_of_mapPlaces hxy.1)]
    · rename_i hpipe
      rw [hd.accept_eq_none rfl hpipe]
      exact .ok ⟨hlhs, hd⟩

end

theorem agree_expr (n : Nat) (h : v.Same c c') :
    v.Agree (v.Both (Expr.mapPlaces v.place)) (expr n c) (expr n c') := by
  induction n generalizing c c' with
  | zero => exact .error rfl
  | succ n ih =>
    refine (agree_alternatives ih h).bind ?_
    rintro ⟨lhs, d⟩ ⟨lhs', d'⟩ ⟨hlhs, hd⟩
    dsimp only at hlhs hd ⊢
    split
    · rename_i e hcolons
      obtain ⟨e', hcolons', he⟩ := hd.accept rfl hcolons
      rw [hcolons']
      refine (ih he).bind fun x y hxy => .ok ⟨?_, hxy.2⟩
      rw [Expr.mapPlaces, Expr.mapPlaces, hlhs, hxy.1,
        v.merge (Expr.span_of_mapPlaces hlhs) (Expr.span_of_mapPlaces hxy.1)]
    · rename_i hcolons
      rw [hd.accept_eq_none rfl hcolons]
      exact .ok ⟨hlhs, hd⟩

theorem agree_payload (h : v.Same c c') :
    v.Agree (v.Both (Expr.mapPlacesAll v.place)) (payload c) (payload c') := by
  fun_induction payload c generalizing c' with
  | case1 c hend =>
    rw [payload.eq_def c', h.endsLine, if_pos hend]
    exact .ok ⟨rfl, h⟩
  | case2 c hend name hkey =>
    rw [payload.eq_def c', h.endsLine, if_neg hend, h.kind_eq rfl hkey]
    refine (agree_keywords (agree_expr _) .newline h (by rw [hkey]; rfl)).bind fun x y hxy => ?_
    exact .ok ⟨congrArg ([·]) hxy.1, hxy.2⟩
  | case3 c hend hkey ih =>
    rw [payload.eq_def c', h.endsLine, if_neg hend]
    split
    · rename_i name hname
      exact absurd (h.symm.kind_eq rfl hname) (hkey name)
    · refine (agree_expr _ h).bind ?_
      rintro ⟨e, d⟩ ⟨e', d'⟩ ⟨he, hd⟩
      dsimp only at he hd ⊢
      split
      · rename_i f hcomma
        obtain ⟨f', hcomma', hf⟩ := hd.accept rfl hcomma
        rw [hcomma']
        refine (ih d f hf).bind fun x y hxy => ?_
        exact .ok ⟨congrArg₂ List.cons he hxy.1, hxy.2⟩
      · rename_i hcomma
        rw [hd.accept_eq_none rfl hcomma]
        exact .ok ⟨congrArg ([·]) he, hd⟩

theorem agree_declaration (h : v.Same c c') :
    v.Agree (v.Both (Declaration.mapPlaces v.place)) (declaration c) (declaration c') := by
  unfold declaration
  split
  · rename_i name span d hnext
    obtain ⟨span', d', hnext', hspan, hd⟩ := h.next hnext rfl
    rw [hnext']
    refine (agree_payload hd).bind fun x y hxy => .ok ⟨?_, hxy.2⟩
    rw [Declaration.mapPlaces, Declaration.mapPlaces, hxy.1, hspan,
      v.merge hspan hxy.2.before]
  · rename_i hname
    split
    · rename_i name span' d' hnext'
      obtain ⟨span, d, hnext, -⟩ := h.symm.next hnext' rfl
      exact absurd hnext (hname name span d)
    · exact h.fault fun _ => rfl

/-- Lines that look the same are read alike. -/
theorem agree_line (h : v.Same c c') :
    v.Agree (v.Both (Declaration.mapPlaces v.place)) (line c) (line c') := by
  refine (agree_declaration h).bind ?_
  rintro ⟨decl, d⟩ ⟨decl', d'⟩ ⟨hdecl, hd⟩
  dsimp only at hdecl hd ⊢
  rw [hd.endsLine]
  split
  · exact .ok ⟨hdecl, hd⟩
  · exact hd.fault fun _ => rfl

end View

/-! ## What a line leaves -/

/-- The tokens from the end of the line on. -/
def lineEnd (ts : List Token) : List Token := ts.dropWhile fun t => !t.kind.endsLine

theorem lineEnd_append {front rest : List Token} (hfront : ∀ t ∈ front, t.kind.endsLine = false)
    (hrest : (nextKind rest).endsLine) : lineEnd (front ++ rest) = rest := by
  unfold lineEnd
  rw [List.dropWhile_append_of_pos fun t ht => by simp [hfront t ht]]
  cases rest with
  | nil => rfl
  | cons t ts => exact List.dropWhile_cons_of_neg (by simpa using hrest)

/-- A line that can be read is read to its end. -/
theorem ahead_of_line {c : Cursor} {decl : Declaration} {d : c.Later}
    (h : line c = .ok (decl, d)) : d.val.ahead = lineEnd c.ahead := by
  obtain ⟨ks, ⟨front, hahead, rfl⟩, hderives, -, hend⟩ := line_sound h
  rw [Cursor.kind_eq] at hend
  have hfront : ∀ t ∈ front, t.kind.endsLine = false := fun t ht =>
    hderives.inLine t.kind (List.mem_map_of_mem ht)
  exact ((congrArg lineEnd hahead).trans (lineEnd_append hfront hend)).symm

end Parser
end NativeInterface
