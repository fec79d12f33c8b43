import Mathlib.Data.List.Basic
import PipeExpr.Expr.Visit

/-!
# The visit is the pre-order

A visit keeps the nodes still to come on a stack. It comes to the same as the recursion over the
parts: the node itself, then the visits of its parts from left to right. Told by their addresses,
the nodes are met in lexicographic order, each of them once.
-/

set_option autoImplicit false

namespace PipeExpr.Expr

variable {e : Expr} {ps es nodes : List Expr} {err : ForeignValue}

theorem visitAll_cons_ok (parts : e.parts? = .ok ps) (rest : List Expr) :
    visitAll (e :: rest) = (visitAll (ps ++ rest)).map (e :: ·) := by
  rw [visitAll]
  split
  case h_1 err failed =>
    rw [parts] at failed
    cases failed
  case h_2 ps' parts' =>
    rw [parts] at parts'
    cases parts'
    rfl

theorem visitAll_cons_error (parts : e.parts? = .error err) (rest : List Expr) :
    visitAll (e :: rest) = .error err := by
  rw [visitAll]
  split
  case h_1 err' failed =>
    rw [parts] at failed
    cases failed
    rfl
  case h_2 ps parts' =>
    rw [parts] at parts'
    cases parts'

theorem visitAll_append (es rest : List Expr) :
    visitAll (es ++ rest) = (do
      let nodes ← visitAll es
      let others ← visitAll rest
      pure (nodes ++ others)) := by
  induction es using visitAll.induct with
  | case1 =>
    rw [List.nil_append, visitAll]
    cases visitAll rest <;> rfl
  | case2 e es err parts =>
    rw [List.cons_append, visitAll_cons_error parts, visitAll_cons_error parts]
    rfl
  | case3 e es ps parts ih =>
    rw [List.cons_append, visitAll_cons_ok parts, visitAll_cons_ok parts, ← List.append_assoc, ih]
    cases visitAll (ps ++ es) with
    | error => rfl
    | ok nodes => cases visitAll rest <;> rfl

theorem visitAll_cons (e : Expr) (rest : List Expr) :
    visitAll (e :: rest) = (do
      let nodes ← e.visit
      let others ← visitAll rest
      pure (nodes ++ others)) :=
  visitAll_append [e] rest

theorem visit_of_parts (parts : e.parts? = .ok ps) : e.visit = (visitAll ps).map (e :: ·) := by
  rw [visit, visitAll_cons_ok parts, List.append_nil]

theorem visit_eq_ok_iff : e.visit = .ok nodes ↔
    ∃ ps below, e.parts? = .ok ps ∧ visitAll ps = .ok below ∧ nodes = e :: below := by
  cases parts : e.parts? with
  | error err =>
    rw [visit, visitAll_cons_error parts]
    simp
  | ok ps =>
    rw [visit_of_parts parts]
    cases below : visitAll ps <;> simp [Except.map, eq_comm, below]

theorem visitAll_append_eq_ok_iff {rest : List Expr} : visitAll (es ++ rest) = .ok nodes ↔
    ∃ first others, visitAll es = .ok first ∧ visitAll rest = .ok others ∧
      nodes = first ++ others := by
  rw [visitAll_append]
  cases visitAll es with
  | error => exact ⟨nofun, nofun⟩
  | ok first =>
    cases visitAll rest with
    | error => exact ⟨nofun, nofun⟩
    | ok others =>
      constructor
      · intro h
        cases h
        exact ⟨first, others, rfl, rfl, rfl⟩
      · rintro ⟨_, _, ⟨⟩, ⟨⟩, rfl⟩
        rfl

theorem visitAll_cons_eq_ok_iff : visitAll (e :: es) = .ok nodes ↔
    ∃ first others, e.visit = .ok first ∧ visitAll es = .ok others ∧ nodes = first ++ others := by
  rw [← List.singleton_append]
  exact visitAll_append_eq_ok_iff

theorem visitAll_eq_mapM (es : List Expr) :
    visitAll es = (do
      let walks ← es.mapM visit
      pure walks.flatten) := by
  induction es with
  | nil =>
    rw [visitAll]
    rfl
  | cons e es ih =>
    rw [visitAll_cons, ih, List.mapM_cons]
    cases e.visit with
    | error => rfl
    | ok nodes => cases es.mapM visit <;> rfl

theorem visit_eq (e : Expr) :
    e.visit = (do
      let ps ← e.parts?
      let walks ← ps.mapM visit
      pure (e :: walks.flatten)) := by
  cases parts : e.parts? with
  | error err =>
    rw [visit, visitAll_cons_error parts]
    rfl
  | ok ps =>
    rw [visit_of_parts parts, visitAll_eq_mapM]
    change _ = (do
      let walks ← ps.mapM visit
      pure (e :: walks.flatten))
    cases ps.mapM visit <;> rfl

/-- The node that is reached from the tree by going from part to part; the numbers tell to which. -/
def node? : Expr → List Nat → Option Expr
  | e, [] => some e
  | e, i :: address =>
    match e.parts? with
    | .ok ps => ps[i]?.bind (node? · address)
    | .error _ => none

mutual

/-- The addresses of all nodes: a node before its parts, and the parts from left to right. -/
def addresses : Expr → List (List Nat)
  | array elements => [] :: addressesFrom 0 elements
  | object members => [] :: addressesOfMembers 0 members
  | application function arguments =>
    [] :: (function.addresses.map (0 :: ·) ++ addressesFrom 1 arguments)
  | pipeline stages => [] :: addressesFrom 0 stages
  | literal .. | reference _ | foreign _ => [[]]

def addressesFrom (i : Nat) : List Expr → List (List Nat)
  | [] => []
  | e :: rest => e.addresses.map (i :: ·) ++ addressesFrom (i + 1) rest

def addressesOfMembers (i : Nat) : List (String × Expr) → List (List Nat)
  | [] => []
  | (_, e) :: rest => e.addresses.map (i :: ·) ++ addressesOfMembers (i + 1) rest

end

/-- The nodes are those of the whole tree, one for each address, in the order of the addresses. As
    an address comes before all that it begins, so does a node before its descendants, and they
    before all that lies to the right of them. -/
structure Enumerates (e : Expr) (addresses : List (List Nat)) (nodes : List Expr) : Prop where
  ascending : addresses.Pairwise (· < ·)
  complete : ∀ address, address ∈ addresses ↔ (e.node? address).isSome = true
  nodes_eq : addresses.map e.node? = nodes.map some

theorem node?_cons (parts : e.parts? = .ok ps) (i : Nat) (address : List Nat) :
    e.node? (i :: address) = ps[i]?.bind (node? · address) := by
  rw [node?, parts]

theorem size_lt_of_parts {p : Expr} (parts : e.parts? = .ok ps) (mem : p ∈ ps) :
    p.size < e.size := by
  have whole := sizeList_parts parts
  obtain ⟨before, after, rfl⟩ := List.append_of_mem mem
  rw [sizeList_append, sizeList] at whole
  omega

theorem parts_induction {motive : Expr → Prop}
    (node : ∀ e, (∀ ps, e.parts? = .ok ps → ∀ p ∈ ps, motive p) → motive e) (e : Expr) :
    motive e :=
  node e fun _ _parts p _mem => parts_induction node p
termination_by e.size
decreasing_by exact size_lt_of_parts _parts _mem

theorem addressesOfMembers_eq (i : Nat) (ms : List (String × Expr)) :
    addressesOfMembers i ms = addressesFrom i (ms.map (·.2)) := by
  induction ms generalizing i with
  | nil => rfl
  | cons m ms ih => rw [addressesOfMembers, ih, List.map_cons, addressesFrom]

theorem addresses_of_parts (parts : e.parts? = .ok ps) :
    e.addresses = [] :: addressesFrom 0 ps := by
  cases e with
  | literal | reference | array | application | pipeline =>
    cases parts
    rfl
  | object ms =>
    cases parts
    rw [addresses, addressesOfMembers_eq]
  | foreign => cases parts

theorem mem_addressesFrom {address : List Nat} {i : Nat} :
    address ∈ addressesFrom i es ↔
      ∃ j p inner, es[j]? = some p ∧ inner ∈ p.addresses ∧ address = (i + j) :: inner := by
  induction es generalizing i with
  | nil => simp [addressesFrom]
  | cons e es ih =>
    rw [addressesFrom, List.mem_append, ih, List.mem_map]
    constructor
    · rintro (⟨inner, mem, rfl⟩ | ⟨j, p, inner, found, mem, rfl⟩)
      · exact ⟨0, e, inner, rfl, mem, rfl⟩
      · exact ⟨j + 1, p, inner, found, mem, by rw [Nat.add_right_comm, Nat.add_assoc]⟩
    · rintro ⟨j, p, inner, found, mem, rfl⟩
      cases j with
      | zero =>
        cases found
        exact .inl ⟨inner, mem, rfl⟩
      | succ j => exact .inr ⟨j, p, inner, found, mem, by rw [Nat.add_right_comm, Nat.add_assoc]⟩

theorem mem_addresses_iff (e : Expr) :
    ∀ address, address ∈ e.addresses ↔ (e.node? address).isSome = true := by
  induction e using parts_induction with
  | node e ih =>
    intro address
    cases parts : e.parts? with
    | error err =>
      cases e <;> cases parts
      cases address <;> simp [addresses, node?, parts?]
    | ok ps =>
      rw [addresses_of_parts parts, List.mem_cons, mem_addressesFrom]
      cases address with
      | nil => simp [node?]
      | cons i address =>
        rw [node?_cons parts]
        constructor
        · rintro (⟨⟨⟩⟩ | ⟨j, p, inner, found, mem, eq⟩)
          rw [Nat.zero_add] at eq
          cases eq
          rw [found, Option.bind_some, ← ih ps parts p (List.mem_of_getElem? found)]
          exact mem
        · intro there
          cases found : ps[i]? with
          | none =>
            rw [found] at there
            cases there
          | some p =>
            rw [found, Option.bind_some, ← ih ps parts p (List.mem_of_getElem? found)] at there
            exact .inr ⟨i, p, address, found, there, by rw [Nat.zero_add]⟩

theorem ascending_addressesFrom (i : Nat) (h : ∀ p ∈ es, p.addresses.Pairwise (· < ·)) :
    (addressesFrom i es).Pairwise (· < ·) := by
  induction es generalizing i with
  | nil => exact .nil
  | cons e es ih =>
    obtain ⟨first, others⟩ := List.forall_mem_cons.mp h
    rw [addressesFrom, List.pairwise_append, List.pairwise_map]
    refine ⟨?_, ih (i + 1) others, ?_⟩
    · exact first.imp fun lt => List.cons_lt_cons_iff.mpr (.inr ⟨rfl, lt⟩)
    · intro a memA b memB
      obtain ⟨inner, -, rfl⟩ := List.mem_map.mp memA
      obtain ⟨j, p, inner', -, -, rfl⟩ := mem_addressesFrom.mp memB
      exact List.cons_lt_cons_iff.mpr (.inl (by omega))

theorem ascending_addresses (e : Expr) : e.addresses.Pairwise (· < ·) := by
  induction e using parts_induction with
  | node e ih =>
    cases parts : e.parts? with
    | error err =>
      cases e <;> cases parts
      exact List.pairwise_singleton _ _
    | ok ps =>
      rw [addresses_of_parts parts, List.pairwise_cons]
      refine ⟨?_, ascending_addressesFrom 0 (ih ps parts)⟩
      intro address mem
      obtain ⟨j, p, inner, -, -, rfl⟩ := mem_addressesFrom.mp mem
      exact List.nil_lt_cons _ _

theorem map_addressesFrom {at? : List Nat → Option Expr} {i : Nat}
    (onParts : ∀ p ∈ es, ∀ walk, p.visit = .ok walk → p.addresses.map p.node? = walk.map some)
    (found : ∀ j inner, at? ((i + j) :: inner) = es[j]?.bind (node? · inner))
    (visited : visitAll es = .ok nodes) : (addressesFrom i es).map at? = nodes.map some := by
  induction es generalizing i nodes with
  | nil =>
    rw [visitAll] at visited
    cases visited
    rfl
  | cons p es ih =>
    obtain ⟨first, others⟩ := List.forall_mem_cons.mp onParts
    obtain ⟨walk, rest, here, behind, rfl⟩ := visitAll_cons_eq_ok_iff.mp visited
    have head : (p.addresses.map (i :: ·)).map at? = walk.map some := by
      rw [← first walk here, List.map_map]
      exact List.map_congr_left fun inner _ => found 0 inner
    have next : ∀ j inner, at? ((i + 1 + j) :: inner) = es[j]?.bind (node? · inner) := by
      intro j inner
      rw [Nat.add_assoc, Nat.add_comm 1 j]
      exact found (j + 1) inner
    rw [addressesFrom, List.map_append, List.map_append, head, ih others next behind]

theorem map_addresses (e : Expr) :
    ∀ nodes, e.visit = .ok nodes → e.addresses.map e.node? = nodes.map some := by
  induction e using parts_induction with
  | node e ih =>
    intro nodes visited
    obtain ⟨ps, below, parts, rest, rfl⟩ := visit_eq_ok_iff.mp visited
    have found : ∀ j inner, e.node? ((0 + j) :: inner) = ps[j]?.bind (node? · inner) := by
      intro j inner
      rw [Nat.zero_add, node?_cons parts]
    rw [addresses_of_parts parts, List.map_cons, List.map_cons,
      map_addressesFrom (ih ps parts) found rest, node?]

theorem enumerates_of_visit (visited : e.visit = .ok nodes) :
    e.Enumerates e.addresses nodes :=
  ⟨ascending_addresses e, mem_addresses_iff e, map_addresses e nodes visited⟩

theorem infix_of_visitAll {p : Expr} (mem : p ∈ es) (visited : visitAll es = .ok nodes) :
    ∃ walk, p.visit = .ok walk ∧ walk <:+: nodes := by
  obtain ⟨before, after, rfl⟩ := List.append_of_mem mem
  obtain ⟨earlier, later, -, back, rfl⟩ := visitAll_append_eq_ok_iff.mp visited
  obtain ⟨walk, rest, here, -, rfl⟩ := visitAll_cons_eq_ok_iff.mp back
  exact ⟨walk, here, earlier, rest, List.append_assoc ..⟩

theorem infix_of_node? {address : List Nat} {n : Expr} (found : e.node? address = some n)
    (visited : e.visit = .ok nodes) : ∃ walk, n.visit = .ok walk ∧ walk <:+: nodes := by
  induction address generalizing e nodes with
  | nil =>
    cases found
    exact ⟨nodes, visited, List.infix_refl nodes⟩
  | cons i address ih =>
    obtain ⟨ps, below, parts, rest, rfl⟩ := visit_eq_ok_iff.mp visited
    rw [node?_cons parts, Option.bind_eq_some_iff] at found
    obtain ⟨p, part, found⟩ := found
    obtain ⟨inner, here, inside⟩ := infix_of_visitAll (List.mem_of_getElem? part) rest
    obtain ⟨walk, there, within⟩ := ih found here
    exact ⟨walk, there, (within.trans inside).trans (List.suffix_cons e below).isInfix⟩

theorem exists_error_of_visitAll (failed : visitAll es = .error err) :
    ∃ p ∈ es, p.visit = .error err := by
  induction es with
  | nil =>
    rw [visitAll] at failed
    cases failed
  | cons p es ih =>
    rw [visitAll_cons] at failed
    cases first : p.visit with
    | error err' =>
      rw [first] at failed
      cases failed
      exact ⟨p, List.mem_cons_self, first⟩
    | ok walk =>
      cases others : visitAll es with
      | ok rest =>
        rw [first, others] at failed
        cases failed
      | error err' =>
        rw [first, others] at failed
        cases failed
        obtain ⟨q, mem, here⟩ := ih others
        exact ⟨q, List.mem_cons_of_mem p mem, here⟩

theorem exists_foreign_of_visit (e : Expr) : ∀ err, e.visit = .error err →
    ∃ address, e.node? address = some (.foreign err.value) := by
  induction e using parts_induction with
  | node e ih =>
    intro err failed
    cases parts : e.parts? with
    | error err' =>
      rw [visit, visitAll_cons_error parts] at failed
      cases failed
      cases e <;> cases parts
      exact ⟨[], rfl⟩
    | ok ps =>
      have below : visitAll ps = .error err := by
        rw [visit_of_parts parts] at failed
        cases rest : visitAll ps with
        | error err' =>
          rw [rest] at failed
          cases failed
          rfl
        | ok nodes =>
          rw [rest] at failed
          cases failed
      obtain ⟨p, mem, here⟩ := exists_error_of_visitAll below
      obtain ⟨i, part⟩ := List.mem_iff_getElem?.mp mem
      obtain ⟨address, found⟩ := ih ps parts p mem err here
      exact ⟨i :: address, by rw [node?_cons parts, part, Option.bind_some, found]⟩

/-- The visit of a tree is the tree itself followed by the visits of its parts in turn. It comes to
    an end, with an answer if and only if no bare scalar stands in the tree, and then it meets every
    node once, in the order of the addresses, and every subtree in one go. The paths of the tree are
    those of the references that are met. -/
theorem visit_preorder (e : Expr) :
    (e.visit = (do
      let ps ← e.parts?
      let walks ← ps.mapM visit
      pure (e :: walks.flatten))) ∧
    match e.visit with
    | .ok nodes =>
      (∀ address v, e.node? address ≠ some (.foreign v)) ∧
      (∃ addresses, e.Enumerates addresses nodes) ∧
      (∀ address n, e.node? address = some n → ∃ walk, n.visit = .ok walk ∧ walk <:+: nodes) ∧
      e.paths = .ok (nodes.filterMap path?)
    | .error err => ∃ address, e.node? address = some (.foreign err.value) := by
  refine ⟨visit_eq e, ?_⟩
  cases visited : e.visit with
  | error err => exact exists_foreign_of_visit e err visited
  | ok nodes =>
    refine ⟨?_, ⟨_, enumerates_of_visit visited⟩, ?_, ?_⟩
    · intro address v found
      obtain ⟨walk, here, -⟩ := infix_of_node? found visited
      rw [visit, visitAll_cons_error rfl] at here
      cases here
    · intro address n found
      exact infix_of_node? found visited
    · rw [paths, visited]
      rfl

end PipeExpr.Expr
