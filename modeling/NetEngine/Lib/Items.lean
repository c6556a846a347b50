import Mathlib.Data.List.Basic

/-!
# Items of an input

An input is read item by item until nothing is left of it.  `readAll` collects
the items; its fuel is only there for the recursion, since every item takes at
least one element (`readAll_fuel`).

A reader that does not look past the item it reads can be run on two inputs one
after the other (`readAll_append`).  A lenient reader may take what is left as
an item that a strict one refuses; the two agree in front of any continuation,
which is what `Extends` says.
-/

namespace NetEngine
namespace Items

universe u v

variable {β : Type u} {ι : Type v}

/-- Read items until the input ends. -/
def readAll (item : List β → Option (ι × List β)) :
    Nat → List β → Option (List ι)
  | _, [] => some []
  | 0, _ :: _ => none
  | fuel + 1, b :: bs =>
      (item (b :: bs)).bind (fun next =>
        (readAll item fuel next.2).map (fun is => next.1 :: is))

/-- Every item takes something. -/
def Consumes (item : List β → Option (ι × List β)) : Prop :=
  ∀ bs i rest, item bs = some (i, rest) → rest.length < bs.length

/-- What the strict reader reads is read before any continuation. -/
def Extends (strict item : List β → Option (ι × List β)) : Prop :=
  ∀ bs more i rest, strict bs = some (i, rest) →
    item (bs ++ more) = some (i, rest ++ more)

variable {item strict : List β → Option (ι × List β)}

@[simp] theorem readAll_nil (fuel : Nat) :
    readAll item fuel [] = some [] := by
  cases fuel with
  | zero | succ fuel =>
      rfl

theorem readAll_cons (fuel : Nat) {bs : List β} (hbs : bs ≠ []) :
    readAll item (fuel + 1) bs =
      (item bs).bind (fun next =>
        (readAll item fuel next.2).map (fun is => next.1 :: is)) := by
  cases bs with
  | nil =>
      exact absurd rfl hbs
  | cons b bs =>
      rfl

/-- Any fuel that covers the input gives the same items. -/
theorem readAll_fuel
    (h : Consumes item) {bs : List β} {fuel : Nat}
    (hfuel : bs.length ≤ fuel) :
    readAll item fuel bs = readAll item bs.length bs := by
  induction fuel using Nat.strongRecOn generalizing bs with
  | ind fuel ih =>
      cases bs with
      | nil =>
          simp
      | cons b bs =>
          obtain ⟨fuel, rfl⟩ : ∃ k, fuel = k + 1 :=
            Nat.exists_eq_add_one.mpr (Nat.lt_of_lt_of_le (by simp) hfuel)
          rw [List.length_cons, readAll, readAll]
          cases hitem : item (b :: bs) with
          | none =>
              rfl
          | some next =>
              obtain ⟨i, rest⟩ := next
              have hrest := h _ _ _ hitem
              rw [List.length_cons] at hrest hfuel
              have hlong := ih fuel (by omega) (show rest.length ≤ fuel by omega)
              have hshort := ih bs.length (by omega)
                (show rest.length ≤ bs.length by omega)
              simp only [Option.bind_some, hlong, hshort]

/-- Items of one input and then of another. -/
theorem readAll_append
    (hstrict : Consumes strict) (hitem : Consumes item)
    (h : Extends strict item) {xs ys : List β} {is : List ι}
    (hxs : readAll strict xs.length xs = some is) :
    readAll item (xs ++ ys).length (xs ++ ys) =
      (readAll item ys.length ys).map (fun js => is ++ js) := by
  induction hlen : xs.length using Nat.strongRecOn generalizing xs is with
  | ind n ih =>
      cases xs with
      | nil =>
          cases Option.some.inj hxs
          simp
      | cons x xs =>
          rw [List.length_cons, readAll] at hxs
          cases hfirst : strict (x :: xs) with
          | none =>
              rw [hfirst] at hxs
              cases hxs
          | some next =>
              obtain ⟨i, rest⟩ := next
              have hless := hstrict _ _ _ hfirst
              rw [List.length_cons] at hless
              rw [hfirst, Option.bind_some] at hxs
              obtain ⟨is', hrest, rfl⟩ := Option.map_eq_some_iff.mp hxs
              rw [readAll_fuel hstrict (show rest.length ≤ xs.length by omega)]
                at hrest
              have hgo := ih rest.length (by simp at hlen; omega) hrest rfl
              have hread := h _ ys _ _ hfirst
              rw [List.cons_append] at hread ⊢
              rw [List.length_cons, readAll, hread, Option.bind_some,
                readAll_fuel hitem (by simp; omega), hgo, Option.map_map]
              rfl

/-- Items that are written one after the other are read back. -/
theorem readAll_flatMap
    (h : Consumes item) {encode : ι → List β} {is : List ι}
    (hitem : ∀ i ∈ is, ∀ rest, encode i ++ rest ≠ [] ∧
      item (encode i ++ rest) = some (i, rest)) :
    readAll item (is.flatMap encode).length (is.flatMap encode) =
      some is := by
  induction is with
  | nil =>
      rfl
  | cons i is ih =>
      obtain ⟨hne, hread⟩ := hitem i List.mem_cons_self (is.flatMap encode)
      have hless := h _ _ _ hread
      have hrest := ih fun j hj => hitem j (List.mem_cons_of_mem i hj)
      obtain ⟨fuel, hfuel⟩ : ∃ k,
          (encode i ++ is.flatMap encode).length = k + 1 :=
        Nat.exists_eq_add_one.mpr (List.length_pos_iff_ne_nil.mpr hne)
      rw [List.flatMap_cons, hfuel, readAll_cons fuel hne, hread,
        Option.bind_some, readAll_fuel h (by dsimp only; omega), hrest]
      rfl

end Items
end NetEngine
