import NativeInterface.Proofs.CursorMoves

/-!
# Reading in place is reading

A run in place that has enough calls ends, and it ends as the reading does that the parser gives:
with the same result and the cursor at the same place, or with the same fault reported and the
cursor left in the line. Each proof follows the recursion of the parser and takes the same steps in
place (`Simulates`, with `Simulates.bind`). A reader of items takes the reader of expressions as a
parameter, which is followed at one level of nesting (`Follows`). How many calls are enough is eight
for each token ahead and a few for the readers that call each other at the same token.
-/

namespace NativeInterface.Parser.InPlace
open Token (Kind)
variable {s : State} {calls : Nat} {c : Cursor}

/-! ## Simulation -/

/-- A run from `s` ends as a reading does: with what was read, seen through `R`, and the cursor
behind it, or with the fault reported and the cursor in the same line. -/
inductive Simulates {α β : Type} {Q : Cursor → Prop} (R : α → β → Prop) (s : State) :
    Except (Located ParseFault) (α × { d : Cursor // Q d }) → Option (Option β × State) → Prop
  | ok {a b d s'} (hfound : R a b) (hpasses : Passes s s') (hsame : s'.found = s.found)
    (hcursor : d.val = s'.cursor) : Simulates R s (.ok (a, d)) (some (some b, s'))
  | error {fault s'} (hpasses : Passes s s') (hsame : s'.found = (s.reported fault).found) :
    Simulates R s (.error fault) (some (none, s'))

namespace Simulates
variable {α β γ δ : Type} {Q Q' : Cursor → Prop} {R : α → β → Prop} {S : γ → δ → Prop}
  {s s' : State}

/-- What is done first counts to the run. -/
theorem after (hpasses : Passes s s') (hsame : s'.found = s.found)
    {x : Except (Located ParseFault) (α × { d : Cursor // Q d })} {run : Option (Option β × State)}
    (h : Simulates R s' x run) : Simulates R s x run := by
  cases h with
  | ok hfound hpasses' hsame' hcursor =>
    exact .ok hfound (hpasses.trans hpasses') (hsame'.trans hsame) hcursor
  | error hpasses' hsame' =>
    refine .error (hpasses.trans hpasses') ?_
    rw [hsame', State.reported, State.reported, hsame, hpasses.file]

theorem bind {x : Except (Located ParseFault) (α × { d : Cursor // Q d })} {y : Attempt β}
    {f : α × { d : Cursor // Q d } → Except (Located ParseFault) (γ × { d : Cursor // Q' d })}
    {g : β → Attempt δ} (h : Simulates R s x (y.run.run s))
    (hf : ∀ {a b d s'}, R a b → Passes s s' → d.val = s'.cursor →
      Simulates S s' (f (a, d)) ((g b).run.run s')) :
    Simulates S s (x >>= f) ((y >>= g).run.run s) := by
  generalize hrun : y.run.run s = run at h
  cases h with
  | ok hfound hpasses hsame hcursor =>
    rw [run_bind hrun]
    exact (hf hfound hpasses hcursor).after hpasses hsame
  | error hpasses hsame =>
    rw [run_bind_of_none hrun]
    exact .error hpasses hsame

/-- What was read is put together in the reading, and was put together in the run before. -/
theorem map {x : Except (Located ParseFault) (α × { d : Cursor // Q d })}
    {run : Option (Option β × State)} {S : γ → β → Prop} (h : Simulates R s x run)
    {f : α × { d : Cursor // Q d } → Except (Located ParseFault) (γ × { d : Cursor // Q' d })}
    (hf : ∀ {a b d}, R a b → ∃ a' d', f (a, d) = .ok (a', d') ∧ d'.val = d.val ∧ S a' b) :
    Simulates S s (x >>= f) run := by
  cases h with
  | ok hfound hpasses hsame hcursor =>
    obtain ⟨a', d', hok, hd, hfound'⟩ := hf hfound
    change Simulates S s (f _) _
    rw [hok]
    exact .ok hfound' hpasses hsame (hd.trans hcursor)
  | error hpasses hsame => exact .error hpasses hsame

theorem fail (hs : s.Ready) {c : Cursor} (hc : c.ahead = s.ahead) (cause : ParseFault) :
    Simulates (Q := Q) R s (c.fault cause) ((InPlace.fail cause).run.run s) := by
  rw [Cursor.fault, span_eq hs hc]
  exact .error (.of_ahead (Moves.reported hs _) rfl) rfl

theorem expect_bind (hs : s.Ready) {c : Cursor} (hc : c.ahead = s.ahead) {k : Kind}
    (hk : k.endsLine = false)
    {f : c.Later → Except (Located ParseFault) (γ × { d : Cursor // Q' d })} {g : Attempt δ}
    (hf : ∀ d, Passes s s.advanced → d.val = s.advanced.cursor →
      Simulates S s.advanced (f d) (g.run.run s.advanced)) :
    Simulates S s (Parser.expect k c >>= f) ((InPlace.expect k >>= fun _ => g).run.run s) := by
  by_cases hkind : s.kind = k
  · obtain ⟨d, haccept, hd⟩ := accept_eq hs hc hkind
    have hpasses := Passes.advanced hs (hkind ▸ hk)
    rw [Parser.expect, haccept, run_bind (run_expect hkind)]
    exact (hf d hpasses hd).after hpasses hs.found_advanced
  · have hrun : (InPlace.expect k).run.run s =
        some (none, s.reported ⟨.expected k s.kind, s.span⟩) := by
      rw [InPlace.expect, run_lift_bind (run_eat_of_ne hkind)]
      rfl
    rw [Parser.expect, accept_eq_none hs hc hkind, kind_eq hs hc, Cursor.fault, span_eq hs hc,
      run_bind_of_none hrun]
    exact .error (.of_ahead (Moves.reported hs _) rfl) rfl

end Simulates

/-! ## Readers -/

theorem simulates_dottedName (hs : s.Ready) (hc : c.ahead = s.ahead)
    (hcalls : s.ahead.length ≤ calls) (parts : List String) :
    Simulates (fun a b => b = parts ++ a) s (Parser.dottedName c)
      ((dottedName calls parts).run.run s) := by
  fun_induction Parser.dottedName c generalizing s calls parts with
  | case1 c part span d hnext dotSpan e hdot next hsegment ih =>
    obtain ⟨hkind, -, hd⟩ := of_next hs hc hnext
    have hpasses := Passes.advanced hs (by rw [hkind]; rfl)
    obtain ⟨hkind', -, he⟩ := of_next hpasses.ready (congrArg Cursor.ahead hd) hdot
    have hpasses' := Passes.advanced hpasses.ready (by rw [hkind']; rfl)
    rw [kind_eq hpasses'.ready (congrArg Cursor.ahead he)] at hsegment
    obtain ⟨calls, rfl, hleft⟩ := hs.exists_calls hcalls
    rw [dottedName, segmentsTurn, run_place, run_kind, hkind]
    dsimp only
    rw [run_advance, run_kind, run_get, hpasses.ready.secondKind_eq hpasses'.ready, hsegment,
      if_pos ⟨hkind', rfl⟩, run_advance, run_endTurn]
    have hplace : s.position < s.advanced.advanced.position := by
      rw [hpasses.ready.position_advanced, hs.position_advanced]
      omega
    have hturn := (hpasses.trans hpasses').turned .segments hplace
    have hsame : s.advanced.advanced.found = s.found :=
      hpasses.ready.found_advanced.trans hs.found_advanced
    refine ((ih hturn.ready (congrArg Cursor.ahead he) ?_ _).after hturn hsame).map ?_
    · exact Nat.le_trans hpasses'.length_le hleft
    · rintro a _ f rfl
      exact ⟨_, _, rfl, rfl, by rw [List.append_assoc]; rfl⟩
  | case2 c part span d hnext dotSpan e hdot hsegment =>
    obtain ⟨hkind, -, hd⟩ := of_next hs hc hnext
    have hpasses := Passes.advanced hs (by rw [hkind]; rfl)
    obtain ⟨hkind', -, he⟩ := of_next hpasses.ready (congrArg Cursor.ahead hd) hdot
    have hpasses' := Passes.advanced hpasses.ready (by rw [hkind']; rfl)
    rw [kind_eq hpasses'.ready (congrArg Cursor.ahead he)] at hsegment
    obtain ⟨calls, rfl, hleft⟩ := hs.exists_calls hcalls
    rw [dottedName, segmentsTurn, run_place, run_kind, hkind]
    dsimp only
    rw [run_advance, run_kind, run_get, hpasses.ready.secondKind_eq hpasses'.ready, if_neg]
    · exact .ok rfl hpasses hs.found_advanced hd
    · rintro ⟨-, hmatches⟩
      split at hmatches
      · rename_i hk
        exact hsegment _ hk
      · cases hmatches
  | case3 c part span d hnext hdot =>
    obtain ⟨hkind, -, hd⟩ := of_next hs hc hnext
    have hpasses := Passes.advanced hs (by rw [hkind]; rfl)
    obtain ⟨calls, rfl, hleft⟩ := hs.exists_calls hcalls
    rw [dottedName, segmentsTurn, run_place, run_kind, hkind]
    dsimp only
    rw [run_advance, run_kind, run_get, if_neg]
    · exact .ok rfl hpasses hs.found_advanced hd
    · rintro ⟨hk, -⟩
      obtain ⟨e, he, -⟩ := next_eq hpasses.ready (congrArg Cursor.ahead hd)
      rw [hk] at he
      exact hdot _ _ he
  | case4 c hname =>
    obtain ⟨calls, rfl, hleft⟩ := hs.exists_calls hcalls
    rw [dottedName, segmentsTurn, run_place, run_kind]
    split
    · rename_i part hkind
      obtain ⟨d, hnext, -⟩ := next_eq hs hc
      rw [hkind] at hnext
      exact (hname _ _ _ hnext).elim
    · rw [kind_eq hs hc]
      exact .fail hs hc _

/-- Runs that start at a level of nesting and have enough calls end as the reading does. No more
than eight readers and loops are entered from one token to the next, and `extra` of them before the
next token is passed. -/
def Follows {α β : Type} {Q : Cursor → Cursor → Prop} (nesting extra : Nat) (R : α → β → Prop)
    (read : (c : Cursor) → Except (Located ParseFault) (α × { d : Cursor // Q c d }))
    (run : Nat → Attempt β) : Prop :=
  ∀ ⦃c : Cursor⦄ ⦃s : State⦄ ⦃calls : Nat⦄, s.Ready → c.ahead = s.ahead → s.nesting = nesting →
    8 * s.ahead.length + extra ≤ calls → Simulates R s (read c) ((run calls).run.run s)

section
variable {read : Reader Expr} {n : Nat} (hread : Follows n 4 Eq read expr)
include hread

theorem follows_pairs (close : Kind) (found : List (Ident × Expr)) :
    Follows n 5 (fun a b => b = found ++ a) (Parser.pairs read close) (pairs · close found) := by
  intro c s calls hs hc hnesting hcalls
  dsimp only
  fun_induction Parser.pairs read close c generalizing s calls found with
  | case1 c name span d hnext ih =>
    obtain _ | calls := calls
    · omega
    obtain ⟨hkind, hspan, hd⟩ := of_next hs hc hnext
    have hkey := Passes.advanced hs (by rw [hkind]; rfl)
    have hlength := hs.length_ahead
    rw [pairs, pairsTurn, run_place, run_kind, hkind]
    dsimp only
    rw [run_span, run_advance]
    refine .after hkey hs.found_advanced ?_
    refine (hread hkey.ready (congrArg Cursor.ahead hd) (hkey.nesting.trans hnesting) ?_).bind ?_
    · omega
    rintro value _ e s' rfl hvalue he
    have hahead := congrArg Cursor.ahead he
    dsimp only
    rw [run_kind, run_kind, kind_eq hvalue.ready hahead]
    split
    · exact .ok (by rw [hspan]) (.refl hvalue.ready) rfl he
    by_cases hcomma : s'.kind = .comma
    · obtain ⟨f, haccept, hf, hturn⟩ := exists_turn hvalue.ready hahead hcomma rfl .pairs
        (Nat.le_trans hkey.place hvalue.place)
      rw [haccept, run_lift_bind (run_eat hcomma), if_pos rfl, run_endTurn]
      have hnesting' := hturn.nesting.trans (hvalue.nesting.trans (hkey.nesting.trans hnesting))
      refine ((ih e f _ hturn.ready (congrArg Cursor.ahead hf) hnesting' ?_).after hturn
        hvalue.ready.found_advanced).map ?_
      · have := hturn.length_le
        have := hvalue.length_le
        omega
      · rintro rest _ g rfl
        exact ⟨_, _, rfl, rfl, by rw [hspan, List.append_assoc]; rfl⟩
    · rw [accept_eq_none hvalue.ready hahead hcomma, run_lift_bind (run_eat_of_ne hcomma),
        if_neg Bool.false_ne_true]
      exact .ok (by rw [hspan]) (.refl hvalue.ready) rfl he
  | case2 c hkey =>
    obtain _ | calls := calls
    · omega
    rw [pairs, pairsTurn, run_place, run_kind]
    split
    · rename_i part hkind
      obtain ⟨d, hnext, -⟩ := next_eq hs hc
      rw [hkind] at hnext
      exact (hkey _ _ _ hnext).elim
    · rw [kind_eq hs hc]
      exact .fail hs hc _

theorem follows_keywords (close : Kind) :
    Follows n 6 Eq (Parser.keywords read close) (keywords · close) := by
  intro c s calls hs hc hnesting hcalls
  obtain _ | calls := calls
  · omega
  dsimp only
  rw [Parser.keywords, keywords, run_span]
  refine (follows_pairs hread close [] hs hc hnesting (Nat.le_of_succ_le_succ hcalls)).bind ?_
  rintro found _ d s' rfl hpasses hd
  rw [run_spanned]
  exact .ok (by rw [span_eq hs hc, hd]; rfl) (.refl hpasses.ready) rfl hd

theorem follows_items {close : Kind} (hclose : close.endsLine = false) (found : List Expr) :
    Follows n 7 (fun a b => b = found ++ a) (Parser.items read close)
      fun calls => upTo close (items calls close found) := by
  intro c s calls hs hc hnesting hcalls
  dsimp only
  fun_induction Parser.items read close c generalizing s calls found with
  | case1 c d haccept =>
    obtain _ | calls := calls
    · omega
    obtain ⟨hkind, hd⟩ := of_accept hs hc haccept
    rw [upTo, items, itemsTurn, bind_assoc, run_kind, if_pos hkind, pure_bind,
      run_bind (run_expect hkind)]
    exact .ok (List.append_nil _).symm (Passes.advanced hs (hkind ▸ hclose)) hs.found_advanced hd
  | case2 c hnone name hkey =>
    obtain _ | calls := calls
    · omega
    have hkind := ne_of_accept hs hc hnone
    rw [kind_eq hs hc] at hkey
    rw [upTo, items, itemsTurn, bind_assoc, run_kind, if_neg hkind, itemTurn, bind_assoc, run_place,
      bind_assoc, run_kind, hkey]
    dsimp only
    rw [bind_assoc]
    refine (follows_keywords hread close hs hc hnesting (Nat.le_of_succ_le_succ hcalls)).bind ?_
    rintro e _ d s' rfl hpasses hd
    rw [pure_bind]
    refine .expect_bind hpasses.ready (congrArg Cursor.ahead hd) hclose ?_
    intro f hpasses' hf
    exact .ok rfl (.refl hpasses'.ready) rfl hf
  | case3 c hnone hkey ih =>
    obtain _ | calls := calls
    · omega
    have hkind := ne_of_accept hs hc hnone
    rw [kind_eq hs hc] at hkey
    rw [upTo, items, itemsTurn, bind_assoc, run_kind, if_neg hkind, itemTurn, bind_assoc, run_place,
      bind_assoc, run_kind]
    split
    · rename_i name hname
      exact absurd hname (hkey name)
    · rw [bind_assoc]
      refine (hread hs hc hnesting (by omega)).bind ?_
      rintro e _ d s' rfl hpasses hd
      have hahead := congrArg Cursor.ahead hd
      dsimp only
      rw [bind_assoc]
      by_cases hcomma : s'.kind = .comma
      · obtain ⟨f, haccept, hf, hturn⟩ := exists_turn hpasses.ready hahead hcomma rfl .items
          hpasses.place
        rw [haccept, run_lift_bind (run_eat hcomma), if_pos rfl, bind_assoc, run_endTurn]
        have hnesting' := hturn.nesting.trans (hpasses.nesting.trans hnesting)
        refine ((ih d f _ hturn.ready (congrArg Cursor.ahead hf) hnesting' ?_).after hturn
          hpasses.ready.found_advanced).map ?_
        · have := hpasses.ready.length_ahead
          have := hpasses.length_le
          change 8 * s'.advanced.ahead.length + 7 ≤ calls
          omega
        · rintro rest _ g rfl
          exact ⟨_, _, rfl, rfl, by rw [List.append_assoc]; rfl⟩
      · rw [accept_eq_none hpasses.ready hahead hcomma, run_lift_bind (run_eat_of_ne hcomma),
          if_neg Bool.false_ne_true, pure_bind]
        refine .expect_bind hpasses.ready hahead hclose ?_
        intro f hpasses' hf
        exact .ok rfl (.refl hpasses'.ready) rfl hf

theorem follows_entries :
    Follows n 6 Eq (Parser.entries read) fun calls => upTo .rbrace (entries calls) := by
  intro c s calls hs hc hnesting hcalls
  obtain _ | calls := calls
  · omega
  dsimp only
  rw [Parser.entries, upTo, entries, bind_assoc, run_kind]
  split
  · rename_i d haccept
    obtain ⟨hkind, hd⟩ := of_accept hs hc haccept
    rw [if_pos hkind, pure_bind, run_bind (run_expect hkind)]
    exact .ok rfl (Passes.advanced hs (hkind ▸ rfl)) hs.found_advanced hd
  · rename_i hnone
    rw [if_neg (ne_of_accept hs hc hnone)]
    refine (follows_pairs hread .rbrace [] hs hc hnesting (Nat.le_of_succ_le_succ hcalls)).bind ?_
    rintro found _ d s' rfl hpasses hd
    refine .expect_bind hpasses.ready (congrArg Cursor.ahead hd) rfl ?_
    intro f hpasses' hf
    exact .ok rfl (.refl hpasses'.ready) rfl hf

/-- A group of items behind its opening bracket. -/
theorem simulates_group {close : Kind} (hclose : close.endsLine = false) {c : Cursor} {s : State}
    (hs : s.Ready) (hc : c.ahead = s.ahead) (hnesting : s.nesting = n) {calls : Nat}
    (hcalls : 8 * s.ahead.length + 7 ≤ calls) {Q : Cursor → Prop} {start : Span}
    {make : List Expr → Span → Expr}
    {f : List Expr × c.Later → Except (Located ParseFault) (Expr × { d : Cursor // Q d })}
    (hf : ∀ found d, ∃ d', f (found, d) = .ok (make found (start.merge d.val.before), d') ∧
      d'.val = d.val) :
    Simulates Eq s (Parser.items read close c >>= f)
      ((upTo close (items calls close []) >>= fun found =>
        spanned start (make found)).run.run s) := by
  refine (follows_items hread hclose [] hs hc hnesting hcalls).bind ?_
  rintro _ found d s' rfl hpasses hd
  obtain ⟨d', hok, hd'⟩ := hf found d
  rw [hok, run_spanned]
  exact .ok (by rw [hd]; rfl) (.refl hpasses.ready) rfl (hd'.trans hd)

omit hread in
theorem simulates_single {s : State} (hs : s.Ready) (hk : s.kind.endsLine = false)
    {Q : Cursor → Prop} {d : { d : Cursor // Q d }} (hd : d.val = s.advanced.cursor)
    (make : Span → Expr) :
    Simulates Eq s (.ok (make s.span, d))
      ((do advance; spanned s.span make : Attempt Expr).run.run s) := by
  rw [run_advance, run_spanned, hs.spanBefore_advanced, Span.merge_self]
  exact .ok rfl (Passes.advanced hs hk) hs.found_advanced hd

theorem follows_primary : Follows n 1 Eq (Parser.primary read) primary := by
  intro c s calls hs hc hnesting hcalls
  obtain _ | calls := calls
  · omega
  obtain ⟨d, hnext, hd⟩ := next_eq hs hc
  have hahead := congrArg Cursor.ahead hd
  have hlength := hs.length_ahead
  have hfirst (hk : s.kind.endsLine = false) := Passes.advanced hs hk
  rw [Parser.primary, hnext, primary, run_span, run_kind]
  cases hkind : s.kind with
  | identifier name =>
    replace hfirst := hfirst (by rw [hkind]; rfl)
    dsimp only
    rw [run_advance]
    split
    · rename_i e haccept
      obtain ⟨hparen, he⟩ := of_accept hfirst.ready hahead haccept
      have hsecond := Passes.advanced hfirst.ready (by rw [hparen]; rfl)
      rw [run_lift_bind (run_eat hparen), if_pos rfl]
      refine .after (hfirst.trans hsecond)
        (hfirst.ready.found_advanced.trans hs.found_advanced) ?_
      refine simulates_group hread rfl hsecond.ready (congrArg Cursor.ahead he)
        (hsecond.nesting.trans (hfirst.nesting.trans hnesting)) ?_ fun _ _ => ⟨_, rfl, rfl⟩
      have := hsecond.length_le
      omega
    · rename_i hnone
      rw [run_lift_bind (run_eat_of_ne (ne_of_accept hfirst.ready hahead hnone)),
        if_neg Bool.false_ne_true, run_spanned, hs.spanBefore_advanced, Span.merge_self]
      exact .ok rfl hfirst hs.found_advanced hd
  | segment name =>
    refine (simulates_dottedName hs hc (by omega) []).bind ?_
    rintro parts _ e s' rfl hpasses he
    rw [run_spanned]
    exact .ok (by rw [he]; rfl) (.refl hpasses.ready) rfl he
  | atom name => exact simulates_single hs (by rw [hkind]; rfl) hd (.atom name)
  | integer value => exact simulates_single hs (by rw [hkind]; rfl) hd (.int value)
  | string value => exact simulates_single hs (by rw [hkind]; rfl) hd (.str value)
  | lbracket | lbrace =>
    replace hfirst := hfirst (by rw [hkind]; rfl)
    dsimp only
    rw [run_advance]
    refine .after hfirst hs.found_advanced ?_
    exact simulates_group hread rfl hfirst.ready hahead (hfirst.nesting.trans hnesting)
      (by omega) fun _ _ => ⟨_, rfl, rfl⟩
  | percent =>
    replace hfirst := hfirst (by rw [hkind]; rfl)
    dsimp only
    rw [run_advance]
    refine .after hfirst hs.found_advanced ?_
    refine (simulates_dottedName hfirst.ready hahead (by omega) []).bind ?_
    rintro name _ e s' rfl hname he
    refine .expect_bind hname.ready (congrArg Cursor.ahead he) rfl ?_
    intro f hbrace hf
    refine (follows_entries hread hbrace.ready (congrArg Cursor.ahead hf)
      (hbrace.nesting.trans (hname.nesting.trans (hfirst.nesting.trans hnesting))) ?_).bind ?_
    · have := hname.length_le
      have := hbrace.length_le
      omega
    · rintro found _ g s'' rfl hpasses hg
      rw [run_spanned]
      exact .ok (by rw [hg]; rfl) (.refl hpasses.ready) rfl hg
  | _ => exact .fail hs hc _

theorem follows_alternatives : Follows n 2 Eq (Parser.alternatives read) alternatives := by
  intro c s calls hs hc hnesting hcalls
  fun_induction Parser.alternatives read c generalizing s calls with
  | case1 c ih =>
    obtain _ | calls := calls
    · omega
    rw [alternatives]
    refine (follows_primary hread hs hc hnesting (Nat.le_of_succ_le_succ hcalls)).bind ?_
    rintro lhs _ d s' rfl hpasses hd
    have hahead := congrArg Cursor.ahead hd
    dsimp only
    split
    · rename_i e haccept
      obtain ⟨hpipe, he⟩ := of_accept hpasses.ready hahead haccept
      have hpasses' := Passes.advanced hpasses.ready (by rw [hpipe]; rfl)
      rw [run_lift_bind (run_eat hpipe), if_pos rfl]
      refine .after hpasses' hpasses.ready.found_advanced ?_
      refine (ih d e hpasses'.ready (congrArg Cursor.ahead he)
        (hpasses'.nesting.trans (hpasses.nesting.trans hnesting)) ?_).bind ?_
      · have := hpasses.ready.length_ahead
        have := hpasses.length_le
        omega
      · rintro rhs _ f s'' rfl hpasses'' hf
        exact .ok rfl (.refl hpasses''.ready) rfl hf
    · rename_i hnone
      rw [run_lift_bind (run_eat_of_ne (ne_of_accept hpasses.ready hahead hnone)),
        if_neg Bool.false_ne_true]
      exact .ok rfl (.refl hpasses.ready) rfl hd

end

theorem Simulates.nested {α β : Type} {Q : Cursor → Prop} {R : α → β → Prop}
    {x : Except (Located ParseFault) (α × { d : Cursor // Q d })} {work : Attempt β}
    (h : Simulates R { s with nesting := s.nesting + 1 } x
      (work.run.run { s with nesting := s.nesting + 1 })) :
    Simulates R s x ((InPlace.nested work).run.run s) := by
  generalize hrun : work.run.run { s with nesting := s.nesting + 1 } = run at h
  have hnested (found : Option β) (s' : State) (hr : run = some (found, s'))
      (hs' : s'.nesting = s.nesting + 1) :
      (InPlace.nested work).run.run s = some (found, { s' with nesting := s.nesting }) := by
    change (StateT.run work.run { s with nesting := s.nesting + 1 }).bind _ = _
    rw [hrun, hr]
    change some (found, { s' with nesting := s'.nesting - 1 }) = _
    rw [hs', Nat.add_sub_cancel]
  cases h with
  | ok hfound hpasses hsame hcursor =>
    rw [hnested _ _ rfl hpasses.nesting]
    exact .ok hfound hpasses.nested hsame hcursor
  | error hpasses hsame =>
    rw [hnested _ _ rfl hpasses.nesting]
    exact .error hpasses.nested hsame

theorem follows_typed {level n : Nat} (hread : Follows n 4 Eq (Parser.expr level) expr) :
    Follows n 3 Eq (Parser.expr (level + 1)) typed := by
  intro c s calls hs hc hnesting hcalls
  obtain _ | calls := calls
  · omega
  rw [Parser.expr, typed]
  refine (follows_alternatives hread hs hc hnesting (Nat.le_of_succ_le_succ hcalls)).bind ?_
  rintro lhs _ d s' rfl hpasses hd
  have hahead := congrArg Cursor.ahead hd
  dsimp only
  split
  · rename_i e haccept
    obtain ⟨hcolons, he⟩ := of_accept hpasses.ready hahead haccept
    have hpasses' := Passes.advanced hpasses.ready (by rw [hcolons]; rfl)
    rw [run_lift_bind (run_eat hcolons), if_pos rfl]
    refine .after hpasses' hpasses.ready.found_advanced ?_
    refine (hread hpasses'.ready (congrArg Cursor.ahead he)
      (hpasses'.nesting.trans (hpasses.nesting.trans hnesting)) ?_).bind ?_
    · have := hpasses.ready.length_ahead
      have := hpasses.length_le
      omega
    · rintro rhs _ f s'' rfl hpasses'' hf
      exact .ok rfl (.refl hpasses''.ready) rfl hf
  · rename_i hnone
    rw [run_lift_bind (run_eat_of_ne (ne_of_accept hpasses.ready hahead hnone)),
      if_neg Bool.false_ne_true]
    exact .ok rfl (.refl hpasses.ready) rfl hd

theorem follows_expr (level : Nat) {n : Nat} (hlevel : n + level = maxNesting) :
    Follows n 4 Eq (Parser.expr level) expr := by
  induction level generalizing n with
  | zero =>
    intro c s calls hs hc hnesting hcalls
    obtain _ | calls := calls
    · omega
    rw [expr, run_get, if_pos (by omega)]
    exact .fail hs hc _
  | succ level ih =>
    intro c s calls hs hc hnesting hcalls
    obtain _ | calls := calls
    · omega
    rw [expr, run_get, if_neg (by omega)]
    refine .nested ?_
    exact follows_typed (ih (by omega)) ⟨hs.eof, hs.place⟩ hc (congrArg (· + 1) hnesting)
      (Nat.le_of_succ_le_succ hcalls)

/-! ## Declarations -/

theorem simulates_payload (hs : s.Ready) (hc : c = s.cursor) (hnesting : s.nesting = 0)
    (hcalls : 8 * s.ahead.length + 7 ≤ calls) (found : List Expr) :
    Simulates (fun a b => b = found ++ a) s (Parser.payload c)
      ((payload calls found).run.run s) := by
  have hexpr := follows_expr maxNesting (Nat.zero_add _)
  fun_induction Parser.payload c generalizing s calls found with
  | case1 c hend =>
    obtain _ | calls := calls
    · omega
    rw [kind_eq hs (congrArg Cursor.ahead hc)] at hend
    rw [payload, payloadTurn, run_kind, if_pos hend]
    exact .ok (List.append_nil _).symm (.refl hs) rfl hc
  | case2 c hend name hkey =>
    obtain _ | calls := calls
    · omega
    have hahead := congrArg Cursor.ahead hc
    rw [kind_eq hs hahead] at hend hkey
    rw [payload, payloadTurn, run_kind, if_neg hend, itemTurn, run_place, run_kind, hkey]
    refine (follows_keywords hexpr .newline hs hahead hnesting
      (Nat.le_of_succ_le_succ hcalls)).bind ?_
    rintro e _ d s' rfl hpasses hd
    exact .ok rfl (.refl hpasses.ready) rfl hd
  | case3 c hend hkey ih =>
    obtain _ | calls := calls
    · omega
    have hahead := congrArg Cursor.ahead hc
    rw [kind_eq hs hahead] at hend hkey
    rw [payload, payloadTurn, run_kind, if_neg hend, itemTurn, run_place, run_kind]
    split
    · rename_i name hname
      exact absurd hname (hkey name)
    · refine (hexpr hs hahead hnesting (by omega)).bind ?_
      rintro e _ d s' rfl hpasses hd
      have hd' := congrArg Cursor.ahead hd
      dsimp only
      by_cases hcomma : s'.kind = .comma
      · obtain ⟨f, haccept, hf, hturn⟩ := exists_turn hpasses.ready hd' hcomma rfl .payload
          hpasses.place
        rw [haccept, run_lift_bind (run_eat hcomma), if_pos rfl, run_endTurn]
        have hnesting' := hturn.nesting.trans (hpasses.nesting.trans hnesting)
        refine ((ih d f hturn.ready hf hnesting' ?_ _).after hturn
          hpasses.ready.found_advanced).map ?_
        · have := hpasses.ready.length_ahead
          have := hpasses.length_le
          change 8 * s'.advanced.ahead.length + 7 ≤ calls
          omega
        · rintro rest _ g rfl
          exact ⟨_, _, rfl, rfl, by rw [List.append_assoc]; rfl⟩
      · rw [accept_eq_none hpasses.ready hd' hcomma, run_lift_bind (run_eat_of_ne hcomma),
          if_neg Bool.false_ne_true]
        exact .ok rfl (.refl hpasses.ready) rfl hd

theorem simulates_declaration (hs : s.Ready) (hc : c.ahead = s.ahead) (hnesting : s.nesting = 0)
    (hcalls : 8 * s.ahead.length ≤ calls) :
    Simulates Eq s (Parser.declaration c) ((declaration calls).run.run s) := by
  obtain ⟨d, hnext, hd⟩ := next_eq hs hc
  have hlength := hs.length_ahead
  rw [Parser.declaration, hnext, declaration, run_span, run_kind, kind_eq hs hc]
  cases hkind : s.kind with
  | identifier name =>
    have hfirst := Passes.advanced hs (by rw [hkind]; rfl)
    dsimp only
    rw [run_advance]
    refine .after hfirst hs.found_advanced ?_
    refine (simulates_payload hfirst.ready hd (hfirst.nesting.trans hnesting) (by omega) []).bind ?_
    rintro _ found e s' rfl hpasses he
    rw [run_spanned]
    exact .ok (by rw [he]; rfl) (.refl hpasses.ready) rfl he
  | _ => exact .fail hs hc _

end NativeInterface.Parser.InPlace
