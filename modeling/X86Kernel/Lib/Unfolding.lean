import Mathlib.Data.List.Nodup
import Mathlib.Data.List.Perm.Basic
import Mathlib.Data.List.Perm.Subperm
import Mathlib.Logic.Relation

/- Walks through a graph without a record of the nodes that were met.

   A node has items, and an item may lead to a node. A walk that goes through the items of
   a node, and through the node that each of them leads to, meets a node as often as there
   are ways to it, and does not end where there is a cycle. `visits n a` are the nodes that
   it meets in fewer than `n` steps from `a`, `found n a` their items, and `Ends n a` says
   that no way from `a` is longer.

   What is proved: if every item knows its node, then a walk that ends finds no item twice
   exactly if no item leads back to the start, and no two of them to one node that has items
   (`nodup_found_iff`); with finitely many items, the walk ends then (`Sole.ends`). -/
namespace X86Kernel.Lib

variable {α β : Type} (items : β → List α) (lead : α → Option β)

def visits : Nat → β → List β
  | 0, _ => []
  | n + 1, a => a :: ((items a).filterMap lead).flatMap (visits n)

def found (n : Nat) (a : β) : List α := (visits items lead n a).flatMap items

def Ends : Nat → β → Prop
  | 0, _ => False
  | n + 1, a => ∀ b ∈ (items a).filterMap lead, Ends n b

/-- There is a way from one node to another. -/
def Reaches : β → β → Prop := Relation.ReflTransGen fun b c => ∃ x ∈ items b, lead x = some c

/-- Items on the nodes that are reached lead to different nodes, except for nodes without
items, and none leads to the start. -/
structure Sole (a : β) : Prop where
  root : ∀ {b x}, Reaches items lead a b → x ∈ items b → lead x ≠ some a
  one : ∀ {b b' c x y}, Reaches items lead a b → x ∈ items b → Reaches items lead a b' →
    y ∈ items b' → lead x = some c → lead y = some c → items c ≠ [] → x = y

variable {items lead}

/-! ## The nodes that are met -/

/-- A step more: the start, and what the items found so far lead to. -/
theorem visits_succ_perm (n : Nat) : ∀ a : β,
    (visits items lead (n + 1) a).Perm (a :: (found items lead n a).filterMap lead) := by
  induction n with
  | zero =>
    intro a
    have hnone : ((items a).filterMap lead).flatMap (visits items lead 0) = [] :=
      List.flatMap_eq_nil_iff.2 fun _ _ => rfl
    rw [visits, hnone]
    exact List.Perm.refl _
  | succ n ih =>
    intro a
    rw [visits]
    refine List.Perm.cons a ?_
    have hbelow : (((items a).filterMap lead).flatMap (visits items lead (n + 1))).Perm
        (((items a).filterMap lead).flatMap fun b =>
          [b] ++ (found items lead n b).filterMap lead) :=
      List.Perm.flatMap_left _ fun b _ => ih b
    have hsplit : (found items lead (n + 1) a).filterMap lead =
        ((items a).filterMap lead).flatMap (fun b => [b]) ++
          ((items a).filterMap lead).flatMap fun b => (found items lead n b).filterMap lead := by
      rw [found, visits, List.flatMap_cons, List.filterMap_append, List.flatMap_singleton',
        List.flatMap_assoc, List.filterMap_flatMap]
      rfl
    rw [hsplit]
    exact hbelow.trans (List.flatMap_append_perm _ _ _).symm

theorem reaches_of_mem_visits : ∀ (n : Nat) {a b : β}, b ∈ visits items lead n a →
    Reaches items lead a b := by
  intro n
  induction n with
  | zero =>
    intro a b h
    cases h
  | succ n ih =>
    intro a b h
    rcases List.mem_cons.1 h with rfl | h
    · exact .refl
    · obtain ⟨c, hc, hb⟩ := List.mem_flatMap.1 h
      obtain ⟨x, hx, hlead⟩ := List.mem_filterMap.1 hc
      exact .head ⟨x, hx, hlead⟩ (ih hb)

/-- A walk that ends meets every node that is reached. -/
theorem mem_visits_of_reaches {a b : β} (h : Reaches items lead a b) :
    ∀ n, Ends items lead n a → b ∈ visits items lead n a := by
  induction h using Relation.ReflTransGen.head_induction_on with
  | refl =>
    intro n hn
    cases n with
    | zero => exact hn.elim
    | succ n => exact List.mem_cons_self
  | head hstep _ ih =>
    intro n hn
    cases n with
    | zero => exact hn.elim
    | succ n =>
      obtain ⟨x, hx, hlead⟩ := hstep
      have hnext := List.mem_filterMap.2 ⟨x, hx, hlead⟩
      exact List.mem_cons_of_mem _ (List.mem_flatMap.2 ⟨_, hnext, ih n (hn _ hnext)⟩)

/-- A walk that does not end meets a node in every step. -/
theorem le_length_visits : ∀ (n : Nat) {a : β}, ¬ Ends items lead n a →
    n ≤ (visits items lead n a).length := by
  intro n
  induction n with
  | zero =>
    intro a _
    exact Nat.zero_le _
  | succ n ih =>
    intro a h
    simp only [Ends, not_forall] at h
    obtain ⟨b, hb, hends⟩ := h
    have hlong := ih hends
    have hpart : (visits items lead n b).length ≤
        (((items a).filterMap lead).flatMap (visits items lead n)).length := by
      obtain ⟨l, r, hsplit⟩ := List.append_of_mem hb
      rw [hsplit, List.flatMap_append, List.flatMap_cons, List.length_append, List.length_append]
      omega
    rw [visits, List.length_cons]
    omega

theorem visits_succ_of_ends : ∀ (n : Nat) {a : β}, Ends items lead n a →
    visits items lead (n + 1) a = visits items lead n a := by
  intro n
  induction n with
  | zero =>
    intro a h
    exact h.elim
  | succ n ih =>
    intro a h
    rw [visits, visits]
    congr 1
    exact List.flatMap_congr fun b hb => ih (h b hb)

theorem mem_found_of_reaches {n : Nat} {a b : β} {x : α} (hn : Ends items lead n a)
    (h : Reaches items lead a b) (hx : x ∈ items b) : x ∈ found items lead n a :=
  List.mem_flatMap.2 ⟨b, mem_visits_of_reaches h n hn, hx⟩

theorem exists_of_mem_found {n : Nat} {a : β} {x : α} (h : x ∈ found items lead n a) :
    ∃ b, Reaches items lead a b ∧ x ∈ items b := by
  obtain ⟨b, hb, hx⟩ := List.mem_flatMap.1 h
  exact ⟨b, reaches_of_mem_visits n hb, hx⟩

/-! ## How often an item is found -/

variable [DecidableEq β]

/-- The start is met once for itself, and every node once for each item found that leads
to it. -/
theorem count_visits_succ (n : Nat) (a c : β) :
    (visits items lead (n + 1) a).count c =
      ((found items lead n a).countP fun x => lead x == some c) + if a == c then 1 else 0 := by
  rw [(visits_succ_perm n a).count_eq, List.count_cons, List.count_filterMap]

theorem countP_le_one {p : α → Bool} {l : List α} (hnodup : l.Nodup)
    (hone : ∀ x ∈ l, ∀ y ∈ l, p x = true → p y = true → x = y) : l.countP p ≤ 1 := by
  rw [List.countP_eq_length_filter]
  have hfilter : (l.filter p).Nodup := hnodup.filter p
  match hl : l.filter p with
  | [] => exact Nat.zero_le 1
  | [_] => exact Nat.le_refl 1
  | x :: y :: rest =>
    rw [hl] at hfilter
    obtain ⟨hx, hpx⟩ := List.mem_filter.1 (hl ▸ List.mem_cons_self : x ∈ l.filter p)
    obtain ⟨hy, hpy⟩ := List.mem_filter.1
      (hl ▸ List.mem_cons_of_mem x List.mem_cons_self : y ∈ l.filter p)
    have heq := hone x hx y hy hpx hpy
    exact absurd (heq ▸ List.mem_cons_self) (List.nodup_cons.1 hfilter).1

theorem eq_of_countP_le_one {p : α → Bool} {l : List α} (h : l.countP p ≤ 1) {x y : α}
    (hx : x ∈ l) (hy : y ∈ l) (hpx : p x = true) (hpy : p y = true) : x = y := by
  rw [List.countP_eq_length_filter] at h
  have hx' := List.mem_filter.2 ⟨hx, hpx⟩
  have hy' := List.mem_filter.2 ⟨hy, hpy⟩
  match hl : l.filter p with
  | [] =>
    rw [hl] at hx'
    cases hx'
  | [z] =>
    rw [hl, List.mem_singleton] at hx' hy'
    rw [hx', hy']
  | z :: w :: rest =>
    rw [hl, List.length_cons, List.length_cons] at h
    omega

variable [DecidableEq α] {owner : α → β} (howner : ∀ b, ∀ x ∈ items b, owner x = b)
  (hnodup : ∀ b, (items b).Nodup)
include howner hnodup

theorem count_flatMap_items {x : α} (hx : x ∈ items (owner x)) (l : List β) :
    (l.flatMap items).count x = l.count (owner x) := by
  induction l with
  | nil => rfl
  | cons b l ih =>
    rw [List.flatMap_cons, List.count_append, ih, List.count_cons, Nat.add_comm]
    congr 1
    by_cases hb : owner x = b
    · rw [← hb, List.count_eq_one_of_mem (hnodup _) hx, if_pos (beq_self_eq_true _)]
    · have hnot : x ∉ items b := fun hmem => hb (howner b x hmem)
      rw [List.count_eq_zero_of_not_mem hnot, if_neg]
      intro heq
      exact hb (beq_iff_eq.1 heq).symm

theorem found_nodup_iff {n : Nat} {a : β} : (found items lead n a).Nodup ↔
    ∀ c, items c ≠ [] → (visits items lead n a).count c ≤ 1 := by
  rw [List.nodup_iff_count_le_one]
  constructor
  · intro h c hc
    obtain ⟨x, hx⟩ := List.exists_mem_of_ne_nil _ hc
    obtain rfl := howner c x hx
    have hcount := h x
    rwa [found, count_flatMap_items howner hnodup hx] at hcount
  · intro h x
    by_cases hx : x ∈ items (owner x)
    · rw [found, count_flatMap_items howner hnodup hx]
      exact h _ (List.ne_nil_of_mem hx)
    · rw [List.count_eq_zero_of_not_mem]
      · exact Nat.zero_le 1
      · intro hmem
        obtain ⟨b, -, hb⟩ := exists_of_mem_found hmem
        obtain rfl := howner b x hb
        exact hx hb

theorem Sole.nodup_found {a : β} (h : Sole items lead a) (n : Nat) :
    (found items lead n a).Nodup := by
  induction n with
  | zero => exact List.nodup_nil
  | succ n ih =>
    refine (found_nodup_iff howner hnodup).2 fun c hc => ?_
    rw [count_visits_succ]
    split_ifs with hstart
    · -- nothing leads to the start
      obtain rfl := beq_iff_eq.1 hstart
      have hnone : ((found items lead n a).countP fun x => lead x == some a) = 0 := by
        refine List.countP_eq_zero.2 fun x hx hlead => ?_
        obtain ⟨b, hb, hxb⟩ := exists_of_mem_found hx
        exact h.root hb hxb (beq_iff_eq.1 hlead)
      omega
    · refine countP_le_one ih fun x hx y hy hpx hpy => ?_
      obtain ⟨b, hb, hxb⟩ := exists_of_mem_found hx
      obtain ⟨b', hb', hyb⟩ := exists_of_mem_found hy
      exact h.one hb hxb hb' hyb (beq_iff_eq.1 hpx) (beq_iff_eq.1 hpy) hc

theorem Sole.ends {a : β} (h : Sole items lead a) {N : Nat}
    (hfinite : ∀ l : List α, l.Nodup → l.length ≤ N) : Ends items lead (N + 2) a := by
  by_contra hnot
  have hlong := le_length_visits (N + 2) hnot
  have hfew := hfinite _ (h.nodup_found howner hnodup (N + 1))
  have hled := List.length_filterMap_le lead (found items lead (N + 1) a)
  rw [(visits_succ_perm (N + 1) a).length_eq, List.length_cons] at hlong
  omega

/-- In a walk that ends, no item is found twice exactly if the items lead to different
nodes. -/
theorem nodup_found_iff {n : Nat} {a : β} (hends : Ends items lead n a) :
    (found items lead n a).Nodup ↔ Sole items lead a := by
  refine ⟨fun h => ?_, fun h => h.nodup_found howner hnodup n⟩
  have hcount : ∀ c, items c ≠ [] →
      ((found items lead n a).countP fun x => lead x == some c) +
        (if a == c then 1 else 0) ≤ 1 := by
    intro c hc
    rw [← count_visits_succ, visits_succ_of_ends n hends]
    exact (found_nodup_iff howner hnodup).1 h c hc
  constructor
  · intro b x hb hx hlead
    have hstart : items a ≠ [] := by
      rcases Relation.ReflTransGen.cases_head hb with rfl | ⟨c, ⟨y, hy, -⟩, -⟩
      · exact List.ne_nil_of_mem hx
      · exact List.ne_nil_of_mem hy
    have hone := hcount a hstart
    have hpos : 0 < (found items lead n a).countP fun x => lead x == some a :=
      List.countP_pos_iff.2 ⟨x, mem_found_of_reaches hends hb hx, beq_iff_eq.2 hlead⟩
    rw [if_pos (beq_self_eq_true a)] at hone
    omega
  · intro b b' c x y hb hx hb' hy hxc hyc hc
    have hone : ((found items lead n a).countP fun x => lead x == some c) ≤ 1 :=
      Nat.le_trans (Nat.le_add_right _ _) (hcount c hc)
    exact eq_of_countP_le_one hone (mem_found_of_reaches hends hb hx)
      (mem_found_of_reaches hends hb' hy) (beq_iff_eq.2 hxc) (beq_iff_eq.2 hyc)

end X86Kernel.Lib
