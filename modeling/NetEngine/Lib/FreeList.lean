import Mathlib.Data.List.Nodup
import Mathlib.Data.List.Range
import Mathlib.Data.Set.Insert
import Mathlib.Logic.Function.Basic

/-!
# Free lists

A list that is linked through its own elements: `next` gives what lies behind
an element, and the list ends at the null pointer.  Such a list has no
duplicates, since what lies behind an element is determined by it.

`FreeList` says that the linked list holds exactly those of some elements that
are not in use.  Taking the first element puts it in use (`FreeList.pop`), and
linking one in front gives it back (`FreeList.push`).  The last section is
about the loop that links blocks one behind the other.
-/

namespace NetEngine

universe u v

section Linked

variable {α : Type u} {next next' : α → Option α}
variable {header : Option α} {as : List α}

/-- The list from an element to the null pointer. -/
inductive Linked (next : α → Option α) : Option α → List α → Prop
  | nil : Linked next none []
  | cons {a : α} {as : List α} (h : Linked next (next a) as) :
      Linked next (some a) (a :: as)

theorem Linked.unique
    {bs : List α} (h : Linked next header as)
    (h' : Linked next header bs) : as = bs := by
  induction h generalizing bs with
  | nil =>
      cases h'
      rfl
  | cons _ ih =>
      cases h' with
      | cons hrest =>
          rw [ih hrest]

/-- The list from a later element on is shorter. -/
theorem Linked.of_mem
    {a : α} (h : Linked next header as) (ha : a ∈ as) :
    ∃ bs, Linked next (some a) (a :: bs) ∧ bs.length < as.length := by
  induction h with
  | nil =>
      simp at ha
  | @cons b bs hrest ih =>
      rcases List.mem_cons.mp ha with rfl | ha
      · exact ⟨bs, Linked.cons hrest, by simp⟩
      · obtain ⟨cs, hcs, hlen⟩ := ih ha
        exact ⟨cs, hcs, by rw [List.length_cons]; omega⟩

/-- No element comes twice. -/
theorem Linked.nodup (h : Linked next header as) : as.Nodup := by
  induction h with
  | nil =>
      exact List.nodup_nil
  | @cons a as hrest ih =>
      refine List.nodup_cons.mpr ⟨fun ha => ?_, ih⟩
      obtain ⟨bs, hbs, hlen⟩ := hrest.of_mem ha
      have heq := (Linked.cons hrest).unique hbs
      rw [(List.cons.inj heq).2] at hlen
      omega

/-- Only the links of its elements matter. -/
theorem Linked.congr
    (h : Linked next header as) (hsame : ∀ a ∈ as, next' a = next a) :
    Linked next' header as := by
  induction h with
  | nil =>
      exact Linked.nil
  | @cons a as _ ih =>
      have hfirst := hsame a List.mem_cons_self
      have hrest := ih fun b hb => hsame b (List.mem_cons_of_mem a hb)
      rw [← hfirst] at hrest
      exact Linked.cons hrest

end Linked

section FreeList

variable {α : Type u} {next next' : α → Option α}
variable {header : Option α} {all : List α} {live live' : Set α} {a : α}

/-- The linked list holds exactly the elements that are not in use. -/
def FreeList (next : α → Option α) (header : Option α) (all : List α)
    (live : Set α) : Prop :=
  ∃ free, Linked next header free ∧ ∀ a, a ∈ free ↔ a ∈ all ∧ a ∉ live

theorem FreeList.init (h : Linked next header all) :
    FreeList next header all ∅ :=
  ⟨all, h, fun _ => by simp⟩

/-- Links and uses of other elements do not matter. -/
theorem FreeList.congr
    (h : FreeList next header all live)
    (hsame : ∀ a ∈ all, next' a = next a)
    (hlive : ∀ a ∈ all, a ∈ live' ↔ a ∈ live) :
    FreeList next' header all live' := by
  obtain ⟨free, hlinked, hmem⟩ := h
  refine ⟨free, hlinked.congr fun a ha => ?_, fun a => ?_⟩
  · exact hsame a ((hmem a).mp ha).1
  · rw [hmem a]
    exact and_congr_right fun hall => not_congr (hlive a hall).symm

/-- What happens to an element outside the list does not matter. -/
theorem FreeList.frame
    (h : FreeList next header all live) (ha : a ∉ all)
    (hsame : ∀ b, b ≠ a → next' b = next b)
    (hlive : ∀ b, b ≠ a → (b ∈ live' ↔ b ∈ live)) :
    FreeList next' header all live' := by
  have hne : ∀ b ∈ all, b ≠ a := fun b hb heq => ha (heq ▸ hb)
  exact h.congr (fun b hb => hsame b (hne b hb))
    (fun b hb => hlive b (hne b hb))

/-- The first element is not in use, and taking it leaves the others. -/
theorem FreeList.pop (h : FreeList next (some a) all live) :
    a ∈ all ∧ a ∉ live ∧ FreeList next (next a) all (insert a live) := by
  obtain ⟨free, hlinked, hmem⟩ := h
  have hnodup := hlinked.nodup
  cases hlinked with
  | @cons _ rest hrest =>
      have hfirst := (hmem a).mp List.mem_cons_self
      have hnew := (List.nodup_cons.mp hnodup).1
      refine ⟨hfirst.1, hfirst.2, rest, hrest, fun b => ?_⟩
      have hb := hmem b
      rw [List.mem_cons] at hb
      rw [Set.mem_insert_iff]
      constructor
      · intro hrest
        have hne : b ≠ a := fun heq => hnew (heq ▸ hrest)
        have hfree := hb.mp (Or.inr hrest)
        exact ⟨hfree.1, fun hor => hor.elim hne hfree.2⟩
      · rintro ⟨hall, hnot⟩
        rw [not_or] at hnot
        exact (hb.mpr ⟨hall, hnot.2⟩).resolve_left hnot.1

/-- An element in use is given back by linking it in front. -/
theorem FreeList.push
    (h : FreeList next header all live) (hall : a ∈ all) (hlive : a ∈ live)
    (hnext : next' a = header) (hsame : ∀ b, b ≠ a → next' b = next b) :
    FreeList next' (some a) all (live \ {a}) := by
  obtain ⟨free, hlinked, hmem⟩ := h
  have hfree : ∀ b ∈ free, b ≠ a := by
    rintro b hb rfl
    exact ((hmem b).mp hb).2 hlive
  have hlinked' := hlinked.congr fun b hb => hsame b (hfree b hb)
  rw [← hnext] at hlinked'
  refine ⟨a :: free, Linked.cons hlinked', fun b => ?_⟩
  rw [List.mem_cons, hmem b, Set.mem_sdiff, Set.mem_singleton_iff]
  by_cases heq : b = a
  · subst heq
    simp [hall]
  · simp [heq]

theorem FreeList.exhausted
    (h : FreeList next none all live) (ha : a ∈ all) : a ∈ live := by
  obtain ⟨free, hlinked, hmem⟩ := h
  cases hlinked with
  | nil =>
      by_contra hnot
      simpa using (hmem a).mpr ⟨ha, hnot⟩

section Update

variable {ν : Type v} [DecidableEq α] {link : ν → Option α}
variable {nodes : α → ν} {node : ν}

/-- The links are in nodes, and the one of the first element is written. -/
theorem FreeList.pop_update
    (h : FreeList (fun b => link (nodes b)) (some a) all live)
    (hlink : link node = link (nodes a)) :
    FreeList (fun b => link (Function.update nodes a node b))
      (link (nodes a)) all (insert a live) := by
  refine h.pop.2.2.congr (fun b _ => ?_) fun b _ => Iff.rfl
  by_cases heq : b = a
  · rw [heq, Function.update_self, hlink]
  · rw [Function.update_of_ne heq]

/-- The node of an element in use is written and linked in front. -/
theorem FreeList.push_update
    (h : FreeList (fun b => link (nodes b)) header all live)
    (hall : a ∈ all) (hlive : a ∈ live) (hlink : link node = header) :
    FreeList (fun b => link (Function.update nodes a node b)) (some a) all
      (live \ {a}) := by
  refine h.push hall hlive ?_ fun b hne => ?_
  · rw [Function.update_self, hlink]
  · rw [Function.update_of_ne hne]

/-- A node outside the list is written. -/
theorem FreeList.frame_update
    (h : FreeList (fun b => link (nodes b)) header all live)
    (ha : a ∉ all) (hlive : ∀ b, b ≠ a → (b ∈ live' ↔ b ∈ live)) :
    FreeList (fun b => link (Function.update nodes a node b)) header all
      live' := by
  refine h.frame ha (fun b hne => ?_) hlive
  rw [Function.update_of_ne hne]

end Update

/-- Without duplicates, the list is the other elements in some order. -/
theorem FreeList.perm
    [DecidablePred (fun a => a ∈ live)]
    (h : FreeList next header all live) (hnodup : all.Nodup) :
    ∃ free, Linked next header free ∧ free.Nodup ∧
      free.Perm (all.filter (fun a => a ∉ live)) := by
  obtain ⟨free, hlinked, hmem⟩ := h
  refine ⟨free, hlinked, hlinked.nodup, ?_⟩
  refine (List.perm_ext_iff_of_nodup hlinked.nodup
    (hnodup.filter _)).mpr fun a => ?_
  rw [hmem a, List.mem_filter, decide_eq_true_iff]

end FreeList

section ChainBlocks

variable {ν : Type v} (new : Nat → ν) (link : ν → Nat → ν)
variable (block : Nat → Nat)

/-- Write the block `i` and link the one before it to it, from `i` on. -/
def chainLoop : Nat → Nat → Nat → (Nat → ν) → Nat → ν
  | 0, _, _, nodes => nodes
  | n + 1, i, header, nodes =>
      let next := block i
      let nodes₁ := Function.update nodes next (new i)
      let nodes₂ :=
        Function.update nodes₁ header (link (nodes₁ header) next)
      chainLoop n (i + 1) next nodes₂

/-- Write the first block, and the others behind it. -/
def chainBlocks (count : Nat) (nodes : Nat → ν) : Nat → ν :=
  chainLoop new link block (count - 1) 1 (block 0)
    (Function.update nodes (block 0) (new 0))

variable {new link block}

/-- What the loop leaves at the blocks from the last one written on. -/
theorem chainLoop_apply
    (hinj : Function.Injective block) {n k : Nat} {nodes : Nat → ν}
    (hlast : nodes (block k) = new k) :
    (∀ j, k ≤ j → j < k + n →
        chainLoop new link block n (k + 1) (block k) nodes (block j) =
          link (new j) (block (j + 1))) ∧
      chainLoop new link block n (k + 1) (block k) nodes (block (k + n)) =
        new (k + n) ∧
      ∀ a, (∀ j, k ≤ j → j ≤ k + n → a ≠ block j) →
        chainLoop new link block n (k + 1) (block k) nodes a = nodes a := by
  induction n generalizing k nodes with
  | zero =>
      exact ⟨fun j hj hlt => by omega, hlast, fun _ _ => rfl⟩
  | succ n ih =>
      have hne : block k ≠ block (k + 1) := fun heq =>
        absurd (hinj heq) (by omega)
      have hnew : Function.update
            (Function.update nodes (block (k + 1)) (new (k + 1))) (block k)
            (link (new k) (block (k + 1))) (block (k + 1)) = new (k + 1) := by
        rw [Function.update_of_ne hne.symm, Function.update_self]
      have hstep : chainLoop new link block (n + 1) (k + 1) (block k) nodes =
          chainLoop new link block n (k + 1 + 1) (block (k + 1))
            (Function.update
              (Function.update nodes (block (k + 1)) (new (k + 1)))
              (block k) (link (new k) (block (k + 1)))) := by
        rw [chainLoop, Function.update_of_ne hne, hlast]
      obtain ⟨hlater, hend, hother⟩ := ih hnew
      rw [hstep]
      refine ⟨fun j hj hlt => ?_, ?_, fun a ha => ?_⟩
      · by_cases hfirst : j = k
        · subst hfirst
          have hbehind : ∀ i, j + 1 ≤ i → i ≤ j + 1 + n →
              block j ≠ block i := fun i hi _ heq =>
            absurd (hinj heq) (by omega)
          rw [hother (block j) hbehind, Function.update_self]
        · exact hlater j (by omega) (by omega)
      · have hcount : k + (n + 1) = k + 1 + n := by
          omega
        rw [hcount]
        exact hend
      · rw [hother a fun j hj hle => ha j (by omega) (by omega),
          Function.update_of_ne (ha k (Nat.le_refl k) (by omega)),
          Function.update_of_ne (ha (k + 1) (by omega) (by omega))]

/-- Blocks that point each to the one behind it. -/
theorem linked_range
    {next : Nat → Option Nat} {n k : Nat}
    (hnext : ∀ j, k ≤ j → j < k + n → next (block j) = some (block (j + 1)))
    (hend : next (block (k + n)) = none) :
    Linked next (some (block k)) ((List.range' k (n + 1)).map block) := by
  induction n generalizing k with
  | zero =>
      have hnil : Linked next (next (block k)) [] := by
        rw [Nat.add_zero] at hend
        rw [hend]
        exact Linked.nil
      exact Linked.cons hnil
  | succ n ih =>
      have hcount : k + 1 + n = k + (n + 1) := by
        omega
      have hrest : Linked next (some (block (k + 1)))
          ((List.range' (k + 1) (n + 1)).map block) :=
        ih (fun j hj hlt => hnext j (by omega) (by omega))
          (by rw [hcount, hend])
      rw [← hnext k (Nat.le_refl k) (by omega)] at hrest
      exact Linked.cons hrest

/-- Every block is as it was written, linked to the next one or to none. -/
theorem chainBlocks_apply
    (hinj : Function.Injective block) {count i : Nat} (hi : i < count)
    (nodes : Nat → ν) :
    chainBlocks new link block count nodes (block i) =
      if i + 1 < count then link (new i) (block (i + 1)) else new i := by
  have hfirst : Function.update nodes (block 0) (new 0) (block 0) = new 0 :=
    Function.update_self _ _ _
  obtain ⟨hlinks, hend, -⟩ :=
    @chainLoop_apply ν new link block hinj (count - 1) 0 _ hfirst
  simp only [Nat.zero_add] at hend
  rw [chainBlocks]
  split_ifs with hmore
  · exact hlinks i (Nat.zero_le i) (by omega)
  · have hlast : i = count - 1 := by
      omega
    rw [hlast]
    exact hend

/-- Nothing else is written. -/
theorem chainBlocks_of_ne
    (hinj : Function.Injective block) {count : Nat} (hcount : 0 < count)
    (nodes : Nat → ν) {a : Nat} (ha : ∀ i, i < count → a ≠ block i) :
    chainBlocks new link block count nodes a = nodes a := by
  have hfirst : Function.update nodes (block 0) (new 0) (block 0) = new 0 :=
    Function.update_self _ _ _
  obtain ⟨-, -, hother⟩ :=
    @chainLoop_apply ν new link block hinj (count - 1) 0 _ hfirst
  rw [chainBlocks, hother a fun j _ hj => ha j (by omega),
    Function.update_of_ne (ha 0 hcount)]

/-- The blocks in their order, from the first one on. -/
theorem chainBlocks_linked
    (hinj : Function.Injective block) {count : Nat} (hcount : 0 < count)
    (nodes : Nat → ν) {next : ν → Option Nat}
    (hnew : ∀ i, next (new i) = none)
    (hlink : ∀ node a, next (link node a) = some a) :
    Linked (fun a => next (chainBlocks new link block count nodes a))
      (some (block 0)) ((List.range count).map block) := by
  have hlater : ∀ j, 0 ≤ j → j < 0 + (count - 1) →
      next (chainBlocks new link block count nodes (block j)) =
        some (block (j + 1)) := by
    intro j _ hj
    rw [chainBlocks_apply hinj (by omega), if_pos (by omega), hlink]
  have hlast :
      next (chainBlocks new link block count nodes
        (block (0 + (count - 1)))) = none := by
    rw [chainBlocks_apply hinj (by omega), if_neg (by omega), hnew]
  have hcount : count - 1 + 1 = count := by
    omega
  have hall := @linked_range block
    (fun a => next (chainBlocks new link block count nodes a))
    (count - 1) 0 hlater hlast
  rw [hcount] at hall
  rw [List.range_eq_range']
  exact hall

end ChainBlocks

end NetEngine
