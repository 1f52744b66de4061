import NativeInterface.Declaration.InPlace
import NativeInterface.Proofs.ParserExact

/-!
# Moves of a cursor over tokens

A state of a run in place stands where a cursor of the parser stands: at the tokens ahead, with one
token before them. It is `Ready` if the first end of the file is not behind it. `Moves` says once
what any run may do to a state: it keeps what it reads, goes on to a later place that is ready, and
notes only events that are `Sound`. `Passes` are moves inside one line.
-/

namespace NativeInterface

@[simp] theorem Span.merge_self (s : Span) : s.merge s = s := by
  simp [merge, before]

namespace Parser.InPlace
open Token (Kind)

/-! ## Runs -/

section
variable {α β : Type} {s s' : State}

theorem run_bind {x : Attempt α} {f : α → Attempt β} {a : α}
    (h : x.run.run s = some (some a, s')) : (x >>= f).run.run s = (f a).run.run s' := by
  change (StateT.run x.run s).bind _ = _
  rw [h]
  rfl

theorem run_bind_of_none {x : Attempt α} {f : α → Attempt β}
    (h : x.run.run s = some (none, s')) : (x >>= f).run.run s = some (none, s') := by
  change (StateT.run x.run s).bind _ = _
  rw [h]
  rfl

variable {f : α → Attempt β}

/-- Work that looks at the state and does not fail. -/
theorem run_lift_bind {x : Act α} {a : α} (h : x.run s = some (a, s')) :
    ((liftM x : Attempt α) >>= f).run.run s = (f a).run.run s' := by
  refine run_bind ?_
  change (StateT.run x s).bind _ = _
  rw [h]
  rfl

section
variable {f : Kind → Attempt β} {g : Nat → Attempt β} {h : Span → Attempt β} {i : State → Attempt β}
  {rest : Attempt β}

theorem run_kind : ((liftM kind : Attempt Kind) >>= f).run.run s = (f s.kind).run.run s := rfl

theorem run_place : ((liftM place : Attempt Nat) >>= g).run.run s = (g s.position).run.run s := rfl

theorem run_span : ((liftM span : Attempt Span) >>= h).run.run s = (h s.span).run.run s := rfl

theorem run_spanned (start : Span) (make : Span → β) :
    (spanned start make).run.run s = some (some (make (start.merge s.spanBefore)), s) := rfl

theorem run_get : ((get : Attempt State) >>= i).run.run s = (i s).run.run s := rfl

theorem run_advance :
    ((liftM advance : Attempt Unit) >>= fun _ => rest).run.run s = rest.run.run s.advanced := rfl

theorem run_endTurn {loop : Loop} {start : Nat} :
    ((liftM (endTurn loop start) : Attempt Unit) >>= fun _ => rest).run.run s =
      rest.run.run (s.turned loop start) := rfl

end

theorem run_eat {k : Kind} (h : s.kind = k) : (eat k).run s = some (true, s.advanced) := by
  change StateT.run (if s.kind = k then _ else _) s = _
  rw [if_pos h]
  rfl

theorem run_eat_of_ne {k : Kind} (h : s.kind ≠ k) : (eat k).run s = some (false, s) := by
  change StateT.run (if s.kind = k then _ else _) s = _
  rw [if_neg h]
  rfl

theorem run_expect {k : Kind} (h : s.kind = k) :
    (expect k).run.run s = some (some (), s.advanced) := by
  rw [expect, run_lift_bind (run_eat h)]
  rfl

end

/-! ## The first end of the file -/

/-- The number of tokens before the first end of the file. -/
def firstEof (ts : List Token) : Nat := ts.findIdx (·.kind = .eof)

namespace State
variable {s : State}

def ahead (s : State) : List Token := s.tokens.drop s.position

def cursor (s : State) : Cursor := ⟨s.spanBefore, s.ahead⟩

/-- There is an end of the file, and the cursor is not behind the first one. -/
structure Ready (s : State) : Prop where
  eof : ∃ t ∈ s.tokens, t.kind = .eof
  place : s.position ≤ firstEof s.tokens

namespace Ready
variable (hs : s.Ready)
include hs

theorem firstEof_lt : firstEof s.tokens < s.tokens.length := by
  obtain ⟨t, ht, hk⟩ := hs.eof
  exact List.findIdx_lt_length_of_exists ⟨t, ht, decide_eq_true hk⟩

theorem lt_length : s.position < s.tokens.length := Nat.lt_of_le_of_lt hs.place hs.firstEof_lt

theorem token?_eq : s.token? = some (s.tokens.get ⟨s.position, hs.lt_length⟩) := by
  rw [token?, List.getElem?_eq_getElem hs.lt_length]
  rfl

theorem ahead_eq : s.ahead = ⟨s.kind, s.span⟩ :: s.advanced.ahead := by
  rw [ahead, List.drop_eq_getElem_cons hs.lt_length, kind, span, hs.token?_eq, advanced,
    if_pos hs.lt_length]
  rfl

theorem length_ahead : s.ahead.length = s.advanced.ahead.length + 1 := by
  rw [hs.ahead_eq, List.length_cons]

theorem exists_calls {calls : Nat} (hcalls : s.ahead.length ≤ calls) :
    ∃ n, calls = n + 1 ∧ s.advanced.ahead.length ≤ n := by
  rw [hs.length_ahead] at hcalls
  exact ⟨calls - 1, by omega, by omega⟩

theorem position_advanced : s.advanced.position = s.position + 1 := by
  rw [advanced, if_pos hs.lt_length]

theorem found_advanced : s.advanced.found = s.found := by rw [advanced, if_pos hs.lt_length]

theorem spanBefore_advanced : s.advanced.spanBefore = s.span := by
  rw [advanced, if_pos hs.lt_length, span, hs.token?_eq, spanBefore]
  dsimp only
  rw [List.getElem?_eq_getElem hs.lt_length]
  rfl

theorem advanced (hk : s.kind ≠ .eof) : s.advanced.Ready := by
  have hne : s.position ≠ firstEof s.tokens := by
    intro hplace
    apply hk
    rw [kind, token?, hplace, List.getElem?_eq_getElem hs.firstEof_lt]
    exact of_decide_eq_true (List.findIdx_getElem (w := hs.firstEof_lt))
  rw [State.advanced, if_pos hs.lt_length]
  exact ⟨hs.eof, Nat.lt_of_le_of_ne hs.place hne⟩

theorem secondKind_eq (hnext : s.advanced.Ready) : s.secondKind = s.advanced.kind := by
  have hlt := hnext.lt_length
  rw [State.advanced, if_pos hs.lt_length] at hlt ⊢
  rw [secondKind, kind, token?, List.getElem?_eq_getElem hlt]
  rfl

end Ready

end State

/-! ## Moves -/

/-- The cursor does not pass the first end of the file, and a loop that goes round has moved it. -/
def Event.Sound (ts : List Token) : Event → Prop
  | .moved place => place ≤ firstEof ts
  | .turned _ start stop => start < stop

/-- From one state to a later one of the same run, with all that happened in between sound. -/
structure Moves (s s' : State) : Prop where
  file : s'.file = s.file
  tokens : s'.tokens = s.tokens
  nesting : s'.nesting = s.nesting
  place : s.position ≤ s'.position
  ready : s'.Ready
  events : ∃ es, s'.events = s.events ++ es ∧ ∀ e ∈ es, e.Sound s.tokens

/-- Moves over tokens of one line. -/
structure Passes (s s' : State) : Prop extends Moves s s' where
  inLine : ∃ front, s.ahead = front ++ s'.ahead ∧ ∀ t ∈ front, t.kind.endsLine = false

section
variable {s s' s'' : State}

theorem Moves.refl (hs : s.Ready) : Moves s s where
  file := rfl
  tokens := rfl
  nesting := rfl
  place := Nat.le_refl _
  ready := hs
  events := ⟨[], (List.append_nil _).symm, fun _ he => absurd he List.not_mem_nil⟩

theorem Moves.trans (h : Moves s s') (h' : Moves s' s'') : Moves s s'' where
  file := h'.file.trans h.file
  tokens := h'.tokens.trans h.tokens
  nesting := h'.nesting.trans h.nesting
  place := Nat.le_trans h.place h'.place
  ready := h'.ready
  events := by
    obtain ⟨es, hes, hsound⟩ := h.events
    obtain ⟨es', hes', hsound'⟩ := h'.events
    refine ⟨es ++ es', by rw [hes', hes, List.append_assoc], ?_⟩
    rw [h.tokens] at hsound'
    exact List.forall_mem_append.mpr ⟨hsound, hsound'⟩

theorem Moves.length_le (h : Moves s s') : s'.ahead.length ≤ s.ahead.length := by
  rw [State.ahead, State.ahead, List.length_drop, List.length_drop, h.tokens]
  exact Nat.sub_le_sub_left h.place _

theorem Moves.lt_of_length (h : Moves s s') (hlength : s'.ahead.length < s.ahead.length) :
    s.position < s'.position := by
  rw [State.ahead, State.ahead, List.length_drop, List.length_drop, h.tokens] at hlength
  omega

theorem Moves.advanced (hs : s.Ready) (hk : s.kind ≠ .eof) : Moves s s.advanced where
  file := by rw [State.advanced, if_pos hs.lt_length]
  tokens := by rw [State.advanced, if_pos hs.lt_length]
  nesting := by rw [State.advanced, if_pos hs.lt_length]
  place := by rw [hs.position_advanced]; exact Nat.le_succ _
  ready := hs.advanced hk
  events := by
    have hplace := (hs.advanced hk).place
    rw [State.advanced, if_pos hs.lt_length] at hplace ⊢
    exact ⟨_, rfl, List.forall_mem_singleton.mpr hplace⟩

/-- The end of a turn, with the cursor behind its start. -/
theorem Moves.turned (hs : s.Ready) (loop : Loop) {start : Nat} (hstart : start < s.position) :
    Moves s (s.turned loop start) where
  file := rfl
  tokens := rfl
  nesting := rfl
  place := Nat.le_refl _
  ready := ⟨hs.eof, hs.place⟩
  events := ⟨_, rfl, List.forall_mem_singleton.mpr hstart⟩

theorem Moves.reported (hs : s.Ready) (fault : Located ParseFault) :
    Moves s (s.reported fault) where
  file := rfl
  tokens := rfl
  nesting := rfl
  place := Nat.le_refl _
  ready := ⟨hs.eof, hs.place⟩
  events := ⟨[], (List.append_nil _).symm, fun _ he => absurd he List.not_mem_nil⟩

/-- A move that leaves the tokens ahead as they are. -/
theorem Passes.of_ahead (h : Moves s s') (hahead : s.ahead = s'.ahead) : Passes s s' where
  toMoves := h
  inLine := ⟨[], hahead, fun _ ht => absurd ht List.not_mem_nil⟩

theorem Passes.refl (hs : s.Ready) : Passes s s := .of_ahead (.refl hs) rfl

theorem Passes.trans (h : Passes s s') (h' : Passes s' s'') : Passes s s'' where
  toMoves := h.toMoves.trans h'.toMoves
  inLine := by
    obtain ⟨front, hahead, hfront⟩ := h.inLine
    obtain ⟨front', hahead', hfront'⟩ := h'.inLine
    exact ⟨front ++ front', by rw [hahead, hahead', List.append_assoc],
      List.forall_mem_append.mpr ⟨hfront, hfront'⟩⟩

theorem Passes.advanced (hs : s.Ready) (hk : s.kind.endsLine = false) : Passes s s.advanced where
  toMoves := Moves.advanced hs (ne_of_endsLine hk rfl)
  inLine := ⟨[⟨s.kind, s.span⟩], hs.ahead_eq, List.forall_mem_singleton.mpr hk⟩

/-- A turn ends, with the cursor behind where it started. -/
theorem Passes.turned (h : Passes s s') (loop : Loop) {start : Nat} (hstart : start < s'.position) :
    Passes s (s'.turned loop start) :=
  h.trans (.of_ahead (Moves.turned h.ready loop hstart) rfl)

/-- One level deeper and back. -/
theorem Passes.nested {n : Nat} (h : Passes { s with nesting := n } s') :
    Passes s { s' with nesting := s.nesting } where
  file := h.file
  tokens := h.tokens
  nesting := rfl
  place := h.place
  ready := ⟨h.ready.eof, h.ready.place⟩
  events := h.events
  inLine := h.inLine

end

/-! ## A cursor at a state -/

section
variable {s : State} (hs : s.Ready) {c : Cursor} (hc : c.ahead = s.ahead)
include hs hc

theorem next_eq :
    ∃ d : c.Later, c.next = some (⟨s.kind, s.span⟩, d) ∧ d.val = s.advanced.cursor := by
  obtain ⟨before, ahead⟩ := c
  obtain rfl : ahead = ⟨s.kind, s.span⟩ :: s.advanced.ahead := hc.trans hs.ahead_eq
  refine ⟨⟨⟨s.span, s.advanced.ahead⟩, Nat.lt_succ_self _⟩, rfl, ?_⟩
  rw [State.cursor, hs.spanBefore_advanced]

theorem kind_eq : c.kind = s.kind := by
  rw [Cursor.kind, hc.trans hs.ahead_eq]

theorem span_eq : c.span = s.span := by
  rw [Cursor.span, hc.trans hs.ahead_eq]

theorem of_next {t : Token} {d : c.Later} (h : c.next = some (t, d)) :
    s.kind = t.kind ∧ s.span = t.span ∧ d.val = s.advanced.cursor := by
  obtain ⟨d', hnext, hd⟩ := next_eq hs hc
  cases hnext.symm.trans h
  exact ⟨rfl, rfl, hd⟩

theorem accept_eq {k : Kind} (hk : s.kind = k) :
    ∃ d : c.Later, c.accept k = some d ∧ d.val = s.advanced.cursor := by
  obtain ⟨d, hnext, hd⟩ := next_eq hs hc
  refine ⟨d, ?_, hd⟩
  rw [Cursor.accept, hnext]
  exact if_pos hk

theorem accept_eq_none {k : Kind} (hk : s.kind ≠ k) : c.accept k = none :=
  Cursor.accept_eq_none (kind_eq hs hc ▸ hk)

theorem of_accept {k : Kind} {d : c.Later} (h : c.accept k = some d) :
    s.kind = k ∧ d.val = s.advanced.cursor := by
  have hkind : s.kind = k := by
    by_contra hne
    cases (accept_eq_none hs hc hne).symm.trans h
  obtain ⟨d', haccept, hd⟩ := accept_eq hs hc hkind
  cases haccept.symm.trans h
  exact ⟨hkind, hd⟩

theorem ne_of_accept {k : Kind} (h : c.accept k = none) : s.kind ≠ k := by
  intro hk
  obtain ⟨d, haccept, -⟩ := accept_eq hs hc hk
  cases haccept.symm.trans h

/-- A turn that ends with a token. -/
theorem exists_turn {k : Kind} (hk : s.kind = k) (hline : k.endsLine = false) (loop : Loop)
    {start : Nat} (hstart : start ≤ s.position) :
    ∃ d : c.Later, c.accept k = some d ∧ d.val = (s.advanced.turned loop start).cursor ∧
      Passes s (s.advanced.turned loop start) := by
  obtain ⟨d, haccept, hd⟩ := accept_eq hs hc hk
  refine ⟨d, haccept, hd, (Passes.advanced hs (hk ▸ hline)).turned loop ?_⟩
  rw [hs.position_advanced]
  exact Nat.lt_succ_of_le hstart

end

end Parser.InPlace
end NativeInterface
