import NativeInterface.Proofs.TreeOperations

/-!
# Edits of a tree

An edit says what stands at a place in the end: a node, or nothing. Edits that agree wherever they
meet are all in force once they are made (`has_edits`). Making them again then changes nothing, not
even the order in which the nodes are listed (`edits_of_has`).
-/

namespace NativeInterface.Tree

/-! ## Nodes in order -/

section
variable {place q : Place} {node : Node} {ns : List (Place × Node)} {t : Tree}

theorem putNode_of_lookup (h : ns.lookup place = some node) : putNode place node ns = ns := by
  induction ns with
  | nil => cases h
  | cons n ns ih =>
    obtain ⟨p, old⟩ := n
    rw [lookup_cons_ite] at h
    rw [putNode]
    split
    · rename_i hp
      cases hp
      rw [if_pos rfl] at h
      cases h
      rfl
    · rename_i hp
      rw [if_neg (Ne.symm hp)] at h
      rw [ih h]

theorem filter_of_lookup (h : ns.lookup place = none) : ns.filter (·.1 ≠ place) = ns := by
  rw [List.filter_eq_self]
  intro n hn
  have hne : ¬(place == n.1) = true := by simpa using List.lookup_eq_none_iff.mp h n hn
  exact decide_eq_true fun hplace => hne (beq_iff_eq.mpr hplace.symm)

theorem filter_putNode_self (place : Place) (node : Node) (ns : List (Place × Node)) :
    (putNode place node ns).filter (·.1 ≠ place) = ns.filter (·.1 ≠ place) := by
  induction ns with
  | nil => simp [putNode]
  | cons n ns ih =>
    rw [putNode]
    split
    · rename_i hp
      simp [hp]
    · rw [List.filter_cons, List.filter_cons, ih]

theorem filter_putNode_of_ne (h : place ≠ q) (node : Node) (ns : List (Place × Node)) :
    (putNode place node ns).filter (·.1 ≠ q) = putNode place node (ns.filter (·.1 ≠ q)) := by
  induction ns with
  | nil => simp [putNode, h]
  | cons n ns ih =>
    rw [putNode]
    split
    · rename_i hp
      simp [h, hp, putNode]
    · rename_i hp
      by_cases hq : n.1 = q
      · simpa [hq] using ih
      · simpa [hq, putNode, hp] using ih

/-- Nodes at a place that a listing passes over. -/
theorem filterMap_putNode_of_none {α : Type} {f : Place × Node → Option α}
    (h : ∀ node, f (place, node) = none) (node : Node) (ns : List (Place × Node)) :
    (putNode place node ns).filterMap f = ns.filterMap f := by
  induction ns with
  | nil => simp [putNode, h]
  | cons n ns ih =>
    obtain ⟨p, old⟩ := n
    rw [putNode]
    split
    · rename_i hp
      cases hp
      rw [List.filterMap_cons_none (h node), List.filterMap_cons_none (h old)]
    · rw [List.filterMap_cons, List.filterMap_cons, ih]

theorem filterMap_filter_of_none {α : Type} {f : Place × Node → Option α}
    (h : ∀ node, f (place, node) = none) (ns : List (Place × Node)) :
    (ns.filter (·.1 ≠ place)).filterMap f = ns.filterMap f := by
  induction ns with
  | nil => rfl
  | cons n ns ih =>
    obtain ⟨p, old⟩ := n
    by_cases hp : p = place
    · rw [List.filter_cons_of_neg (by simpa using hp), ih, hp, List.filterMap_cons_none (h old)]
    · rw [List.filter_cons_of_pos (by simpa using hp), List.filterMap_cons, List.filterMap_cons, ih]

theorem put_of_get? (hne : place ≠ []) (h : t.get? place = some node) : t.put place node = t := by
  rw [get?_of_ne_nil hne] at h
  exact congrArg Tree.mk (putNode_of_lookup h)

theorem erase_of_get? (hne : place ≠ []) (h : t.get? place = none) : t.erase place = t := by
  rw [get?_of_ne_nil hne] at h
  exact congrArg Tree.mk (filter_of_lookup h)

theorem erase_put_self (t : Tree) (place : Place) (node : Node) :
    (t.put place node).erase place = t.erase place :=
  congrArg Tree.mk (filter_putNode_self ..)

theorem erase_put_of_ne (h : place ≠ q) (t : Tree) (node : Node) :
    (t.put place node).erase q = (t.erase q).put place node :=
  congrArg Tree.mk (filter_putNode_of_ne h ..)

theorem ensure_eq_put (hne : place ≠ []) (hfile : t.hasFile place = false) :
    t.ensure place = t.put place .directory := by
  unfold ensure
  split
  · rfl
  · rename_i hnode
    have hdirectory := get?_ensure hne hfile
    rw [ensure, if_neg hnode] at hdirectory
    exact (put_of_get? hne hdirectory).symm

end

/-! ## Edits -/

/-- What stands at an entry of a directory in the end. -/
structure Edit where
  directory : Place
  name : String
  node : Option Node

namespace Edit

def place (e : Edit) : Place := e.directory ++ [e.name]

theorem place_ne_nil (e : Edit) : e.place ≠ [] := by simp [place]

end Edit

def edit (t : Tree) (e : Edit) : Tree :=
  match e.node with
  | none => t.erase e.place
  | some node => t.put e.place node

/-- Make edits one behind the other. -/
def edits (t : Tree) (es : List Edit) : Tree := es.foldl edit t

/-- Edits are in force. -/
def Has (t : Tree) (es : List Edit) : Prop := ∀ e ∈ es, t.get? e.place = e.node

/-- Edits that agree wherever they meet. -/
def Compatible (es : List Edit) : Prop :=
  ∀ e ∈ es, ∀ e' ∈ es, e.place = e'.place → e.node = e'.node

section
variable {t : Tree} {e : Edit} {es es' : List Edit} {q : Place}

theorem edits_cons (t : Tree) (e : Edit) (es : List Edit) :
    t.edits (e :: es) = (t.edit e).edits es := rfl

theorem edits_append (t : Tree) (es es' : List Edit) :
    t.edits (es ++ es') = (t.edits es).edits es' :=
  List.foldl_append ..

theorem get?_edit (t : Tree) (e : Edit) (q : Place) :
    (t.edit e).get? q = if q = e.place then e.node else t.get? q := by
  unfold edit
  split
  · rename_i hnode
    rw [get?_erase e.place_ne_nil, hnode]
  · rename_i node hnode
    rw [get?_put e.place_ne_nil, hnode]

theorem get?_edits_of_ne (h : ∀ e ∈ es, q ≠ e.place) : (t.edits es).get? q = t.get? q := by
  induction es generalizing t with
  | nil => rfl
  | cons e es ih =>
    rw [edits_cons, ih fun e he => h e (List.mem_cons_of_mem _ he), get?_edit,
      if_neg (h e List.mem_cons_self)]

theorem edit_of_get? (h : t.get? e.place = e.node) : t.edit e = t := by
  unfold edit
  split
  · rename_i hnode
    exact erase_of_get? e.place_ne_nil (h.trans hnode)
  · rename_i node hnode
    exact put_of_get? e.place_ne_nil (h.trans hnode)

/-- Edits that are in force change nothing. -/
theorem edits_of_has (h : t.Has es) : t.edits es = t := by
  induction es with
  | nil => rfl
  | cons e es ih =>
    rw [edits_cons, edit_of_get? (h e List.mem_cons_self),
      ih fun e he => h e (List.mem_cons_of_mem _ he)]

/-- Edits that agree are in force once they are made. -/
theorem has_edits (h : Compatible es) : (t.edits es).Has es := by
  induction es generalizing t with
  | nil => exact fun e he => (List.not_mem_nil he).elim
  | cons e es ih =>
    have hes : ((t.edit e).edits es).Has es := ih fun a ha b hb =>
      h a (List.mem_cons_of_mem _ ha) b (List.mem_cons_of_mem _ hb)
    intro a ha
    rcases List.mem_cons.mp ha with rfl | ha
    · -- A later edit of the same place agrees with this one.
      by_cases hlater : ∃ b ∈ es, a.place = b.place
      · obtain ⟨b, hb, hplace⟩ := hlater
        rw [h a List.mem_cons_self b (List.mem_cons_of_mem _ hb) hplace, hplace]
        exact hes b hb
      · rw [edits_cons, get?_edits_of_ne fun b hb hplace => hlater ⟨b, hb, hplace⟩, get?_edit,
          if_pos rfl]
    · exact hes a ha

/-- A listing that passes over the places of edits does not notice them. -/
theorem filterMap_edits {α : Type} {f : Place × Node → Option α}
    (h : ∀ e ∈ es, ∀ node, f (e.place, node) = none) :
    (t.edits es).nodes.filterMap f = t.nodes.filterMap f := by
  induction es generalizing t with
  | nil => rfl
  | cons e es ih =>
    rw [edits_cons, ih fun e he => h e (List.mem_cons_of_mem _ he)]
    unfold edit
    split
    · exact filterMap_filter_of_none (h e List.mem_cons_self) _
    · exact filterMap_putNode_of_none (h e List.mem_cons_self) ..

end

end NativeInterface.Tree
