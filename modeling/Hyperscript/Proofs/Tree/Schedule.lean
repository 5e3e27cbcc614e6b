import Mathlib.Algebra.BigOperators.Group.List.Lemmas
import Mathlib.Algebra.Group.Prod
import Mathlib.Algebra.GroupWithZero.Nat
import Hyperscript.Proofs.Tree.Places

/-!
# The order of definitions and calls

The script defines a mixin where the function around its declaration starts, wherever in that
function the declaration stands, and it works off the content of an `each` twice.  The order in
which it comes to the declarations and calls of a template is the template's schedule.  The schedule
of a node has two parts: what the function around the node starts with, and what comes at the
node's own place.

The schedule tells how often a declaration comes up, and that the declarations of a function come
before the calls in it.
-/

namespace Hyperscript

/-! ## Schedules -/

/-- What the script comes to: the definition of a mixin, or a line of a call.  The node is given
with the nodes above it. -/
inductive Event where
  | define (above : List Node) (mixin : Node)
  | call (above : List Node) (call : Node)

/-- The event, seen from one node higher up. -/
def Event.below (n : Node) : Event → Event
  | define above m => define (n :: above) m
  | call above m => call (n :: above) m

/-- The events of a node: those at the start of the function around it, and those at its place. -/
structure Schedule where
  hoisted : List Event
  placed : List Event

/-- What a node makes of the events in it. -/
def Node.arrange (hoisted placed : List Event) : Node → Schedule
  -- the definition holds all that is in a mixin, and nothing comes at the place of the declaration
  | n@(.mixin ..) => ⟨.define [] n :: hoisted ++ placed, []⟩
  -- there is a loop for arrays and one for objects
  | .each .. => ⟨[], hoisted ++ placed ++ placed⟩
  -- a call with a block has a line before its function, two in it and one after it
  | n@(.call _ _ _ children) =>
    if children.isNull then ⟨[], [.call [] n]⟩
    else ⟨[], .call [] n :: hoisted ++ .call [] n :: placed ++ [.call [] n, .call [] n]⟩
  | _ => ⟨hoisted, placed⟩

def Node.schedule (n : Node) : Schedule :=
  n.arrange ((n.inner.attach.flatMap fun m => m.1.schedule.hoisted).map (.below n))
    ((n.inner.attach.flatMap fun m => m.1.schedule.placed).map (.below n))
termination_by sizeOf n
decreasing_by all_goals exact Node.sizeOf_inner m.2

def hoistedOf (nodes : List Node) : List Event :=
  nodes.flatMap fun n => n.schedule.hoisted

def placedOf (nodes : List Node) : List Event :=
  nodes.flatMap fun n => n.schedule.placed

theorem Node.schedule_eq (n : Node) :
    n.schedule =
      n.arrange ((hoistedOf n.inner).map (.below n)) ((placedOf n.inner).map (.below n)) := by
  rw [Node.schedule, List.flatMap_subtype (g := fun m => m.schedule.hoisted) fun _ _ => rfl,
    List.flatMap_subtype (g := fun m => m.schedule.placed) fun _ _ => rfl, List.unattach_attach,
    hoistedOf, placedOf]

theorem Node.arrange_of_not_opensScope {n : Node} (h : n.opensScope = false)
    (hoisted placed : List Event) : n.arrange hoisted placed = ⟨hoisted, placed⟩ := by
  cases n <;> first | rfl | cases h

theorem placedOf_cons (n : Node) (nodes : List Node) :
    placedOf (n :: nodes) = n.schedule.placed ++ placedOf nodes :=
  rfl

theorem placedOf_append (xs ys : List Node) : placedOf (xs ++ ys) = placedOf xs ++ placedOf ys :=
  List.flatMap_append

theorem placedOf_singleton (n : Node) : placedOf [n] = n.schedule.placed :=
  List.append_nil _

theorem hoistedOf_singleton (n : Node) : hoistedOf [n] = n.schedule.hoisted :=
  List.append_nil _

theorem hoistedOf_append (xs ys : List Node) :
    hoistedOf (xs ++ ys) = hoistedOf xs ++ hoistedOf ys :=
  List.flatMap_append

/-- A node that opens no function hands on what is in it. -/
theorem Node.placed_of_not_opensScope {n : Node} (h : n.opensScope = false) :
    n.schedule.placed = (placedOf n.inner).map (.below n) := by
  rw [n.schedule_eq, Node.arrange_of_not_opensScope h]

theorem Node.placed_eq_nil {n : Node} (h : n.opensScope = false) (hinner : n.inner = []) :
    n.schedule.placed = [] := by
  rw [n.placed_of_not_opensScope h, hinner]
  rfl

theorem Node.hoisted_of_not_opensScope {n : Node} (h : n.opensScope = false) :
    n.schedule.hoisted = (hoistedOf n.inner).map (.below n) := by
  rw [n.schedule_eq, Node.arrange_of_not_opensScope h]

/-! ## How often a mixin is defined -/

section Count

/-- From how often something comes up among the hoisted and among the placed events of the nodes in
a node to how often it does among those of the node. -/
def Node.weigh : Node → Nat × Nat → Nat × Nat
  | .mixin .., times => (times.1 + times.2, 0)
  | .each .., times => (0, times.1 + 2 * times.2)
  | .call .., times => (0, times.1 + times.2)
  | _, times => times

/-- How often a declaration below these nodes comes up: among what is hoisted from the outermost
node, and among what stands at its place. -/
def weights (above : List Node) : Nat × Nat :=
  above.foldr Node.weigh (1, 0)

variable (declares : Node → Bool)

/-- The event is the definition of such a mixin. -/
def Event.defines : Event → Bool
  | .define _ m => declares m
  | .call _ _ => false

def definitionsIn (hoisted placed : List Event) : Nat × Nat :=
  (hoisted.countP (Event.defines declares), placed.countP (Event.defines declares))

/-- The declarations among some places, each as often as it comes up. -/
def weightOf (places : List (List Node × Node)) : Nat × Nat :=
  ((places.filter fun place => declares place.2).map fun place => weights place.1).sum

theorem Node.weigh_add (n : Node) (x y : Nat × Nat) : n.weigh (x + y) = n.weigh x + n.weigh y := by
  cases n with
  | mixin | each | call =>
    simp only [Node.weigh, Prod.fst_add, Prod.snd_add, Prod.mk_add_mk, Prod.mk.injEq, and_true,
      true_and]
    omega
  | tag | text | code | comment | conditional | branch | switch | loop | placeholder | other => rfl

theorem Node.weigh_zero (n : Node) : n.weigh 0 = 0 := by
  cases n <;> rfl

theorem definitionsIn_append (xs us ys vs : List Event) :
    definitionsIn declares (xs ++ us) (ys ++ vs) =
      definitionsIn declares xs ys + definitionsIn declares us vs := by
  simp only [definitionsIn, List.countP_append, Prod.mk_add_mk]

theorem definitionsIn_map_below (n : Node) (hoisted placed : List Event) :
    definitionsIn declares (hoisted.map (.below n)) (placed.map (.below n)) =
      definitionsIn declares hoisted placed := by
  have hbelow : Event.defines declares ∘ Event.below n = Event.defines declares := by
    funext e
    cases e <;> rfl
  simp only [definitionsIn, List.countP_map, hbelow]

theorem weightOf_append (xs ys : List (List Node × Node)) :
    weightOf declares (xs ++ ys) = weightOf declares xs + weightOf declares ys := by
  simp only [weightOf, List.filter_append, List.map_append, List.sum_append]

theorem weightOf_cons (place : List Node × Node) (places : List (List Node × Node)) :
    weightOf declares (place :: places) = weightOf declares [place] + weightOf declares places :=
  weightOf_append declares [place] places

theorem weightOf_below (n : Node) (places : List (List Node × Node)) :
    weightOf declares (places.map fun place => (n :: place.1, place.2)) =
      n.weigh (weightOf declares places) := by
  induction places with
  | nil => exact n.weigh_zero.symm
  | cons place places ih =>
    have hone : weightOf declares [(n :: place.1, place.2)] =
        n.weigh (weightOf declares [place]) := by
      cases hplace : declares place.2 with
      | true => simp [weightOf, hplace, weights]
      | false => simp [weightOf, hplace, n.weigh_zero]
    rw [List.map_cons, weightOf_cons, ih, hone, weightOf_cons declares place places,
      n.weigh_add]

variable (hdeclares : ∀ n, declares n = true → n.isMixin = true)

include hdeclares in
/-- The events that a node adds define it if it is such a mixin, and nothing else. -/
theorem Node.definitionsIn_arrange (n : Node) (hoisted placed : List Event)
    (hcall : ∀ name args attributes children, n = .call name args attributes children →
      children.isNull = true → hoisted = [] ∧ placed = []) :
    definitionsIn declares (n.arrange hoisted placed).hoisted (n.arrange hoisted placed).placed =
      weightOf declares [([], n)] + n.weigh (definitionsIn declares hoisted placed) := by
  have hother : n.isMixin = false → weightOf declares [([], n)] = 0 := by
    intro hn
    have hfalse : declares n = false := by
      by_contra htrue
      rw [hdeclares n (by simpa using htrue)] at hn
      cases hn
    simp [weightOf, hfalse]
  cases n with
  | mixin name params rest children =>
    cases hn : declares (.mixin name params rest children) with
    | true =>
      simp [Node.arrange, definitionsIn, weightOf, Event.defines, hn, Node.weigh, weights]
      omega
    | false => simp [Node.arrange, definitionsIn, weightOf, Event.defines, hn, Node.weigh]
  | each =>
    rw [hother rfl]
    simp [Node.arrange, definitionsIn, Node.weigh]
    omega
  | call name args attributes children =>
    rw [hother rfl]
    cases hnull : children.isNull with
    | true =>
      obtain ⟨rfl, rfl⟩ := hcall name args attributes children rfl hnull
      simp [Node.arrange, definitionsIn, Node.weigh, hnull, Event.defines]
    | false => simp [Node.arrange, definitionsIn, Node.weigh, hnull, Event.defines]
  | tag | text | code | comment | conditional | branch | switch | loop | placeholder | other =>
    rw [hother rfl, zero_add]
    rfl

theorem definitionsIn_of_forall {nodes : List Node}
    (h : ∀ m ∈ nodes, definitionsIn declares m.schedule.hoisted m.schedule.placed =
      weightOf declares m.places) :
    definitionsIn declares (hoistedOf nodes) (placedOf nodes) =
      weightOf declares (placesOf nodes) := by
  induction nodes with
  | nil => rfl
  | cons m nodes ih =>
    rw [List.forall_mem_cons] at h
    have hm : placesOf (m :: nodes) = m.places ++ placesOf nodes := rfl
    rw [hm, weightOf_append, ← h.1, ← ih h.2, ← definitionsIn_append]
    rfl

include hdeclares in
theorem Node.definitionsIn_schedule (n : Node) :
    definitionsIn declares n.schedule.hoisted n.schedule.placed = weightOf declares n.places := by
  induction n using Node.inner_induction with
  | step n ih =>
    have hnull : ∀ name args attributes children, n = .call name args attributes children →
        children.isNull = true → n.inner = [] := by
      rintro name args attributes children rfl hnull
      exact Content.nodes_of_isNull hnull
    rw [n.schedule_eq, Node.definitionsIn_arrange declares hdeclares, definitionsIn_map_below,
      definitionsIn_of_forall declares ih, n.places_eq,
      weightOf_cons declares ([], n) (List.map _ _), weightOf_below]
    intro name args attributes children hn hchildren
    rw [hnull name args attributes children hn hchildren]
    exact ⟨rfl, rfl⟩

include hdeclares in
/-- Each declaration of such a mixin comes up as often as its place has it. -/
theorem definitionsIn_placesOf (nodes : List Node) :
    definitionsIn declares (hoistedOf nodes) (placedOf nodes) =
      weightOf declares (placesOf nodes) :=
  definitionsIn_of_forall declares fun m _ => m.definitionsIn_schedule declares hdeclares

end Count

/-- How many of these scopes are the `each` right around another `each` or a call. -/
def repeats (scopes : List Node) : Nat :=
  (scopes.zip scopes.tail).countP fun pair => pair.1.isEach && (pair.2.isEach || pair.2.isCall)

theorem repeats_cons (m : Node) (scopes : List Node) :
    repeats (m :: scopes) = repeats scopes +
      if m.isEach && scopes.head?.any (fun s => s.isEach || s.isCall) then 1 else 0 := by
  cases scopes with
  | nil => simp [repeats]
  | cons s scopes => simp [repeats, List.countP_cons]

/-- A declaration comes up in one part of the schedule only, and there once for every way through
the loops around it. -/
theorem weights_eq (above : List Node) :
    weights above =
      if (above.filter Node.opensScope).head?.all Node.isMixin then
        (2 ^ repeats (above.filter Node.opensScope), 0)
      else (0, 2 ^ repeats (above.filter Node.opensScope)) := by
  induction above with
  | nil => rfl
  | cons m above ih =>
    have hweights : weights (m :: above) = m.weigh (weights above) := rfl
    rw [hweights, ih]
    cases hm : m.opensScope with
    | false =>
      rw [List.filter_cons_of_neg (by rw [hm]; decide)]
      cases m <;> first | rfl | cases hm
    | true =>
      rw [List.filter_cons_of_pos hm, repeats_cons]
      have hscopes : ∀ s ∈ above.filter Node.opensScope, s.opensScope = true :=
        fun s hs => (List.mem_filter.1 hs).2
      generalize above.filter Node.opensScope = scopes at hscopes
      cases scopes with
      | nil => cases m <;> first | rfl | cases hm
      | cons s scopes =>
        have hs := hscopes s (List.mem_cons_self ..)
        clear hweights ih hscopes
        -- what an `each` is around comes up twice, unless that is hoisted
        cases s with
        | mixin | each | call =>
          cases m with
          | mixin | each | call => simp [Node.weigh, pow_succ, mul_comm]
          | _ => cases hm
        | _ => cases hs

/-- A mixin that is declared at one place only is defined once for every way through the loops
around that place. -/
theorem countP_defines {declares : Node → Bool}
    (hdeclares : ∀ n, declares n = true → n.isMixin = true) {nodes above : List Node} {d : Node}
    (honly : (placesOf nodes).filter (fun place => declares place.2) = [(above, d)]) :
    (hoistedOf nodes ++ placedOf nodes).countP (Event.defines declares) =
      2 ^ repeats (above.filter Node.opensScope) := by
  have hcount := definitionsIn_placesOf declares hdeclares nodes
  rw [weightOf, honly, List.map_singleton, List.sum_singleton, weights_eq] at hcount
  rw [List.countP_append]
  split at hcount
  · obtain ⟨hhoisted, hplaced⟩ := Prod.mk.inj hcount
    rw [hhoisted, hplaced, Nat.add_zero]
  · obtain ⟨hhoisted, hplaced⟩ := Prod.mk.inj hcount
    rw [hhoisted, hplaced, Nat.zero_add]

/-! ## What comes first -/

/-- Whenever `b` comes up, `a` has come up before. -/
def Precedes (a b : Event) (events : List Event) : Prop :=
  ∀ before after, events = before ++ b :: after → a ∈ before

section Precedes

variable {a b : Event} {xs ys : List Event}

theorem precedes_of_not_mem (h : b ∉ xs) : Precedes a b xs := by
  rintro before after rfl
  exact absurd (List.mem_append_right before (List.mem_cons_self ..)) h

theorem Precedes.append (hx : Precedes a b xs) (hy : a ∈ xs ∨ Precedes a b ys) :
    Precedes a b (xs ++ ys) := by
  intro before after h
  rcases List.append_eq_append_iff.1 h with ⟨zs, rfl, hys⟩ | ⟨zs, rfl, hzs⟩
  · rcases hy with ha | hy
    · exact List.mem_append_left zs ha
    · exact List.mem_append_right xs (hy zs after hys)
  · cases zs with
    -- the second list starts with `b`, so that it cannot have `a` before it
    | nil =>
      rw [List.append_nil] at hx hy
      rcases hy with ha | hy
      · exact ha
      · exact absurd (hy [] after hzs.symm) List.not_mem_nil
    | cons z zs =>
      cases hzs
      exact hx before zs rfl

theorem Precedes.cons {e : Event} (he : e ≠ b) (h : Precedes a b xs) : Precedes a b (e :: xs) :=
  (precedes_of_not_mem (by simpa using he.symm) : Precedes a b [e]).append (.inr h)

theorem precedes_flatMap {nodes : List Node} {f : Node → List Event}
    (h : ∀ n ∈ nodes, Precedes a b (f n)) : Precedes a b (nodes.flatMap f) := by
  induction nodes with
  | nil => exact precedes_of_not_mem List.not_mem_nil
  | cons n nodes ih =>
    rw [List.forall_mem_cons] at h
    exact h.1.append (.inr (ih h.2))

theorem Event.below_injective (n : Node) : Function.Injective (Event.below n) := by
  intro e e' h
  cases e <;> cases e' <;> cases h <;> rfl

theorem Precedes.below (h : Precedes a b xs) (n : Node) :
    Precedes (a.below n) (b.below n) (xs.map (.below n)) := by
  intro before after heq
  obtain ⟨before', rest, rfl, rfl, hrest⟩ := List.map_eq_append_iff.1 heq
  obtain ⟨b', after', rfl, hb, rfl⟩ := List.map_eq_cons_iff.1 hrest
  cases Event.below_injective n hb
  exact List.mem_map_of_mem (h before' after' rfl)

end Precedes

/-- A mixin is defined where its function starts. -/
theorem define_mem_hoistedOf {above : List Node} {d : Node} (hd : d.isMixin = true)
    (habove : ∀ m ∈ above, m.opensScope = false) {nodes : List Node}
    (h : (above, d) ∈ placesOf nodes) : .define above d ∈ hoistedOf nodes := by
  induction above generalizing nodes with
  | nil =>
    refine List.mem_flatMap.2 ⟨d, mem_placesOf_nil.1 h, ?_⟩
    rw [d.schedule_eq]
    cases d with
    | mixin => exact List.mem_cons_self ..
    | _ => cases hd
  | cons m above ih =>
    rw [List.forall_mem_cons] at habove
    obtain ⟨hm, h⟩ := mem_placesOf_cons.1 h
    refine List.mem_flatMap.2 ⟨m, hm, ?_⟩
    rw [m.hoisted_of_not_opensScope habove.1]
    exact List.mem_map.2 ⟨_, ih habove.2 h, rfl⟩

theorem call_mem_map_below {n c : Node} {above : List Node} {events : List Event}
    (h : Event.call above c ∈ events.map (Event.below n)) :
    ∃ above', above = n :: above' ∧ Event.call above' c ∈ events := by
  obtain ⟨e, he, heq⟩ := List.mem_map.1 h
  cases e with
  | define => cases heq
  | call above' m =>
    cases heq
    exact ⟨above', rfl, he⟩

/-- What a function starts with are definitions and what stands in them. -/
theorem Node.exists_isMixin_of_call_mem {n c : Node} {above : List Node}
    (h : .call above c ∈ n.schedule.hoisted) : ∃ m ∈ above, m.isMixin = true := by
  induction n using Node.inner_induction generalizing above with
  | step n ih =>
    rw [n.schedule_eq] at h
    cases n with
    | mixin =>
      have h : _ ∨ _ := List.mem_append.1 (List.mem_of_ne_of_mem (by simp) h)
      rcases h with h | h <;>
      · obtain ⟨above', rfl, -⟩ := call_mem_map_below h
        exact ⟨_, List.mem_cons_self .., rfl⟩
    | each => cases h
    | call =>
      rw [Node.arrange] at h
      split at h <;> cases h
    | _ =>
      obtain ⟨above', rfl, hcall⟩ := call_mem_map_below h
      obtain ⟨k, hk, hcall⟩ := List.mem_flatMap.1 hcall
      obtain ⟨m, hm, hmixin⟩ := ih k hk hcall
      exact ⟨m, List.mem_cons_of_mem _ hm, hmixin⟩

section Arrange

variable {n : Node} {hoisted placed : List Event}

theorem Node.mem_arrange {e : Event}
    (h : e ∈ (n.arrange hoisted placed).hoisted ∨ e ∈ (n.arrange hoisted placed).placed) :
    e = .define [] n ∨ e = .call [] n ∨ e ∈ hoisted ∨ e ∈ placed := by
  cases n with
  | mixin | each => simp [Node.arrange] at h; tauto
  | call name args attributes children =>
    rw [Node.arrange] at h
    split at h <;> simp at h <;> tauto
  | _ => exact .inr (.inr h)

theorem Node.mem_arrange_of_mem {e : Event} (hn : n.inner ≠ []) (h : e ∈ hoisted ∨ e ∈ placed) :
    e ∈ (n.arrange hoisted placed).hoisted ∨ e ∈ (n.arrange hoisted placed).placed := by
  cases n with
  | mixin => exact .inl (List.mem_cons_of_mem _ (List.mem_append.2 h))
  | each => exact .inr (List.mem_append_left _ (List.mem_append.2 h))
  | call name args attributes children =>
    have hchildren : ¬children.isNull = true := fun hnull => hn (Content.nodes_of_isNull hnull)
    rw [Node.arrange, if_neg hchildren]
    simp only [List.cons_append, List.mem_cons, List.mem_append]
    tauto
  | _ => exact h

theorem Precedes.arrange {a : Event} {above : List Node} {m c : Node}
    (hx : Precedes a (.call (m :: above) c) hoisted)
    (hy : (n.opensScope = true ∧ a ∈ hoisted) ∨ Precedes a (.call (m :: above) c) placed) :
    Precedes a (.call (m :: above) c) (n.arrange hoisted placed).hoisted ∧
      Precedes a (.call (m :: above) c) (n.arrange hoisted placed).placed := by
  have hy' : a ∈ hoisted ∨ Precedes a (.call (m :: above) c) placed := hy.imp_left And.right
  have hnone : Precedes a (.call (m :: above) c) [] := precedes_of_not_mem List.not_mem_nil
  cases n with
  | mixin =>
    exact ⟨(hx.cons (by simp)).append (hy'.imp_left (List.mem_cons_of_mem _)), hnone⟩
  | each => exact ⟨hnone, (hx.append hy').append (hy'.imp_left (List.mem_append_left _))⟩
  | call name args attributes children =>
    rw [Node.arrange]
    split
    · exact ⟨hnone, precedes_of_not_mem (by simp)⟩
    · refine ⟨hnone, ((hx.cons (by simp)).append ?_).append (.inr (precedes_of_not_mem (by simp)))⟩
      exact hy'.imp (List.mem_cons_of_mem _) fun hy => hy.cons (by simp)
  | _ =>
    rcases hy with ⟨hopens, -⟩ | hy
    · cases hopens
    · exact ⟨hx, hy⟩

end Arrange

theorem mem_schedule_of_mem {e : Event} {n : Node} {nodes : List Node} (hn : n ∈ nodes)
    (h : e ∈ n.schedule.hoisted ∨ e ∈ n.schedule.placed) :
    e ∈ hoistedOf nodes ∨ e ∈ placedOf nodes :=
  h.imp (fun h => List.mem_flatMap.2 ⟨n, hn, h⟩) fun h => List.mem_flatMap.2 ⟨n, hn, h⟩

/-- No call is left out. -/
theorem call_mem_schedule {above : List Node} {c : Node} (hc : c.isCall = true) {nodes : List Node}
    (h : (above, c) ∈ placesOf nodes) :
    .call above c ∈ hoistedOf nodes ∨ .call above c ∈ placedOf nodes := by
  induction above generalizing nodes with
  | nil =>
    apply mem_schedule_of_mem (mem_placesOf_nil.1 h)
    rw [c.schedule_eq]
    cases c with
    | call name args attributes children =>
      rw [Node.arrange]
      split <;> exact .inr (List.mem_cons_self ..)
    | _ => cases hc
  | cons m above ih =>
    obtain ⟨hm, h⟩ := mem_placesOf_cons.1 h
    apply mem_schedule_of_mem hm
    rw [m.schedule_eq]
    apply Node.mem_arrange_of_mem
    · intro hinner
      rw [hinner] at h
      cases h
    · exact (ih h).imp (fun h => List.mem_map.2 ⟨_, h, rfl⟩) fun h => List.mem_map.2 ⟨_, h, rfl⟩

section Scope

variable {inner path : List Node} {d c : Node}

/-- In one function, definitions come before calls. -/
theorem precedes_of_function (hd : d.isMixin = true)
    (hinner : ∀ m ∈ inner, m.opensScope = false) (hpath : ∀ m ∈ path, m.isMixin = false)
    {nodes : List Node} (h : (inner, d) ∈ placesOf nodes) :
    .define inner d ∈ hoistedOf nodes ∧
      Precedes (.define inner d) (.call path c) (hoistedOf nodes) := by
  refine ⟨define_mem_hoistedOf hd hinner h, precedes_of_not_mem fun hcall => ?_⟩
  obtain ⟨n, -, hcall⟩ := List.mem_flatMap.1 hcall
  obtain ⟨m, hm, hmixin⟩ := n.exists_isMixin_of_call_mem hcall
  rw [hpath m hm] at hmixin
  cases hmixin

/-- A call below another node does not come up. -/
theorem Node.precedes_of_ne {a : Event} {m n : Node} {above : List Node} (hne : n ≠ m) :
    Precedes a (.call (m :: above) c) n.schedule.hoisted ∧
      Precedes a (.call (m :: above) c) n.schedule.placed := by
  have hnot : ∀ e : Event, (e ∈ n.schedule.hoisted ∨ e ∈ n.schedule.placed) →
      e ≠ .call (m :: above) c := by
    rintro e he rfl
    rw [n.schedule_eq] at he
    rcases Node.mem_arrange he with h | h | h | h
    · cases h
    · cases h
    all_goals
      obtain ⟨above', hcons, -⟩ := call_mem_map_below h
      cases hcons
      exact hne rfl
  exact ⟨precedes_of_not_mem fun h => hnot _ (.inl h) rfl,
    precedes_of_not_mem fun h => hnot _ (.inr h) rfl⟩

/-- The same for a function further down: what is at the start of it comes before what is in it,
each time that the script comes to the function. -/
theorem precedes_of_scope (hd : d.isMixin = true) (hinner : ∀ m ∈ inner, m.opensScope = false)
    (hpath : ∀ m ∈ path, m.isMixin = false) (outer : List Node) (m : Node)
    (houter : ∀ s ∈ (m :: outer).getLast?, s.opensScope = true) {nodes : List Node}
    (h : (m :: outer ++ inner, d) ∈ placesOf nodes) :
    Precedes (.define (m :: outer ++ inner) d) (.call (m :: outer ++ path) c) (hoistedOf nodes) ∧
      Precedes (.define (m :: outer ++ inner) d) (.call (m :: outer ++ path) c)
        (placedOf nodes) := by
  have hnode : ∀ n : Node,
      Precedes (.define (m :: outer ++ inner) d) (.call (m :: outer ++ path) c) n.schedule.hoisted ∧
      Precedes (.define (m :: outer ++ inner) d) (.call (m :: outer ++ path) c)
        n.schedule.placed := by
    intro n
    by_cases hne : n = m
    · subst hne
      obtain ⟨-, h⟩ := mem_placesOf_cons.1 h
      rw [n.schedule_eq]
      cases outer with
      -- the declaration belongs to the function of this node, which starts with what is hoisted
      | nil =>
        have hfunction := precedes_of_function (c := c) hd hinner hpath h
        exact Precedes.arrange (hfunction.2.below n)
          (.inl ⟨houter n rfl, List.mem_map_of_mem (f := Event.below n) hfunction.1⟩)
      | cons m outer =>
        have ih := precedes_of_scope hd hinner hpath outer m (by simpa using houter) h
        exact Precedes.arrange (ih.1.below n) (.inr (ih.2.below n))
    · exact Node.precedes_of_ne hne
  exact ⟨precedes_flatMap fun n _ => (hnode n).1, precedes_flatMap fun n _ => (hnode n).2⟩

/-- Whenever a template comes to a call, it has defined the mixins of the functions around it,
but for those that a definition around the call belongs to. -/
theorem precedes_of_placesOf (hd : d.isMixin = true) (hinner : ∀ m ∈ inner, m.opensScope = false)
    (hpath : ∀ m ∈ path, m.isMixin = false) {outer : List Node}
    (houter : ∀ s ∈ outer.getLast?, s.opensScope = true) {nodes : List Node}
    (h : (outer ++ inner, d) ∈ placesOf nodes) :
    Precedes (.define (outer ++ inner) d) (.call (outer ++ path) c)
      (hoistedOf nodes ++ placedOf nodes) := by
  cases outer with
  | nil =>
    have hfunction := precedes_of_function (c := c) hd hinner hpath h
    exact hfunction.2.append (.inl hfunction.1)
  | cons m outer =>
    have hscope := precedes_of_scope (c := c) hd hinner hpath outer m houter h
    exact hscope.1.append (.inr hscope.2)

end Scope

end Hyperscript
