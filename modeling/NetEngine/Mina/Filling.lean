import NetEngine.Mina.Contents

/-!
# What Fill writes

`Fill` goes by words of eight, four and two bytes, of which each byte is the
value: the sign that `intValue` has from 128 on is shifted out of the long, and
the byte order makes no difference.
-/

namespace NetEngine
namespace Mina

open Net

namespace Op

variable {o : ByteOrder} {xs : List UInt8} {b : UInt8} {v : View} {m n : Nat}

section Words

/-- A word in which each byte is `b`. -/
def Repeats (b : UInt8) (w : Nat) (x : BitVec (8 * w)) : Prop :=
  leBytes w x.toNat = List.replicate w b

theorem Repeats.bytesOf {w : Nat} {x : BitVec (8 * w)} (h : Repeats b w x)
    (o : ByteOrder) : bytesOf o w x = List.replicate w b := by
  cases o with
  | BigEndian =>
      rw [Op.bytesOf, h, List.reverse_replicate]
  | LittleEndian =>
      rw [Op.bytesOf, h]

theorem words_repeat (i : Fin 256) :
    Repeats (UInt8.ofFin i) 8 (longValue (UInt8.ofFin i)) ∧
    Repeats (UInt8.ofFin i) 4 (intValue (UInt8.ofFin i)) ∧
      Repeats (UInt8.ofFin i) 2 (shortValue (UInt8.ofFin i)) := by
  unfold Repeats
  revert i
  decide +kernel

theorem longValue_repeats (b : UInt8) : Repeats b 8 (longValue b) :=
  (words_repeat b.toFin).1

theorem intValue_repeats (b : UInt8) : Repeats b 4 (intValue b) :=
  (words_repeat b.toFin).2.1

theorem shortValue_repeats (b : UInt8) : Repeats b 2 (shortValue b) :=
  (words_repeat b.toFin).2.2

theorem zero_repeats (w : Nat) : Repeats 0 w 0 := by
  induction w with
  | zero =>
      rfl
  | succ w ih =>
      have hrest : leBytes w 0 = List.replicate w 0 := by
        simpa [Repeats] using ih
      simp [Repeats, leBytes, hrest, List.replicate_succ]

end Words

section Writing

/-- Behind what was there, the value stands so many times. -/
def Filled (o : ByteOrder) (xs : List UInt8) (b : UInt8) (m : Nat)
    (v : View) : Prop :=
  Wrote o (xs ++ List.replicate m b) v

theorem putWord_filled {w : Nat} {x : BitVec (8 * w)} (h : Repeats b w x) :
    (contract true).Keeps (Filled o xs b m) (putWord w x)
      (fun _ => Filled o xs b (m + w)) := by
  refine (putWord_wrote w x).weaken (fun _ _ => id) ?_
  intro _ s _ hwrote
  rw [Filled, ← List.replicate_append_replicate, ← List.append_assoc]
  rwa [h.bytesOf] at hwrote

theorem put_filled :
    (contract true).Keeps (Filled o xs b m) (put b)
      (fun _ => Filled o xs b (m + 1)) := by
  refine (put_wrote b).weaken (fun _ _ => id) ?_
  intro _ s _ hwrote
  rwa [Filled, ← List.replicate_append_replicate, ← List.append_assoc]

theorem putLongs_filled {x : BitVec 64} (h : Repeats b 8 x) (q : Nat) :
    (contract true).Keeps (Filled o xs b m) (putLongs x q)
      (fun _ => Filled o xs b (m + 8 * q)) := by
  induction q generalizing m with
  | zero =>
      exact .pure _ (fun _ => id)
  | succ q ih =>
      refine (putWord_filled h).bind (fun _ => ?_)
      have hcount : m + 8 * (q + 1) = m + 8 + 8 * q := by
        omega
      rw [hcount]
      exact ih

/-- A part of the rest is put where its bit is set. -/
theorem onlyIf_filled
    {p : Prop} [Decidable p] {x : Op Unit} {k : Nat}
    (h : (contract true).Keeps (Filled o xs b m) x
      (fun _ => Filled o xs b (m + k))) :
    (contract true).Keeps (Filled o xs b m) (onlyIf p x)
      (fun _ => Filled o xs b (m + if p then k else 0)) := by
  by_cases hp : p
  · rw [onlyIf_true hp, if_pos hp]
    exact h
  · rw [onlyIf_false hp, if_neg hp]
    exact .pure _ (fun _ => id)

/-- The four parts make up the size. -/
theorem fill_parts (n : Nat) :
    0 + 8 * ((n : Int) / 8).toNat + (if (n : Int) % 8 / 4 > 0 then 4 else 0) +
      (if (n : Int) % 8 % 4 / 2 > 0 then 2 else 0) +
        (if (n : Int) % 8 % 4 % 2 > 0 then 1 else 0) = n := by
  split_ifs <;> omega

theorem fillWith_wrote
    {long : BitVec 64} {int : BitVec 32} {short : BitVec 16}
    (hlong : Repeats b 8 long) (hint : Repeats b 4 int)
    (hshort : Repeats b 2 short) (n : Nat) :
    (contract true).Keeps (Wrote o xs) (fillWith long int short b n)
      (fun _ => Filled o xs b n) := by
  refine (autoExpandHere_wrote n).bind (fun _ => ?_)
  have hnone : (contract true).Keeps (Wrote o xs)
      (putLongs long ((n : Int) / 8).toNat)
      (fun _ => Filled o xs b (0 + 8 * ((n : Int) / 8).toNat)) := by
    refine (putLongs_filled hlong _).weaken ?_ (fun _ _ _ => id)
    intro s _ hwrote
    rwa [Filled, List.replicate_zero, List.append_nil]
  refine hnone.bind (fun _ => ?_)
  refine (onlyIf_filled (@putWord_filled o xs b _ 4 int hint)).bind
    (fun _ => ?_)
  refine (onlyIf_filled (@putWord_filled o xs b _ 2 short hshort)).bind
    (fun _ => ?_)
  refine (onlyIf_filled put_filled).weaken (fun _ _ => id) ?_
  intro _ s _ hfilled
  rwa [fill_parts] at hfilled

end Writing

section Room

theorem putLongs_ok (x : BitVec 64) (q : Nat) (h : Accepts (8 * q + n) v) :
    ∃ w, putLongs x q v = .ok () w ∧ Accepts n w := by
  induction q generalizing v with
  | zero =>
      rw [Nat.mul_zero, Nat.zero_add] at h
      exact ⟨v, rfl, h⟩
  | succ q ih =>
      have hcount : 8 * (q + 1) + n = 8 + (8 * q + n) := by
        omega
      rw [hcount] at h
      obtain ⟨w, hput, hw⟩ := @putWord_ok v (8 * q + n) 8 h x
      obtain ⟨t, hrest, ht⟩ := ih hw
      exact ⟨t, by rw [putLongs, putInt64, Fallible.bind_ok hput, hrest], ht⟩

theorem onlyIf_ok
    {p : Prop} [Decidable p] {x : Op Unit} {k : Nat}
    (h : Accepts ((if p then k else 0) + n) v)
    (hx : Accepts (k + n) v → ∃ w, x v = .ok () w ∧ Accepts n w) :
    ∃ w, onlyIf p x v = .ok () w ∧ Accepts n w := by
  by_cases hp : p
  · rw [if_pos hp] at h
    rw [onlyIf_true hp]
    exact hx h
  · rw [if_neg hp, Nat.zero_add] at h
    rw [onlyIf_false hp]
    exact ⟨v, rfl, h⟩

theorem fillWith_ok
    (long : BitVec 64) (int : BitVec 32) (short : BitVec 16) (b : UInt8)
    (h : Accepts n v) :
    ∃ w, fillWith long int short b n v = .ok () w := by
  have hparts := fill_parts n
  obtain ⟨w, hexpand, hw, -⟩ := @autoExpandHere_ok v n 0 h
  have hcount : n + 0 = 8 * ((n : Int) / 8).toNat +
      ((if (n : Int) % 8 / 4 > 0 then 4 else 0) +
        ((if (n : Int) % 8 % 4 / 2 > 0 then 2 else 0) +
          ((if (n : Int) % 8 % 4 % 2 > 0 then 1 else 0) + 0))) := by
    omega
  rw [hcount] at hw
  obtain ⟨w₁, hres₁, hw₁⟩ := putLongs_ok long _ hw
  obtain ⟨w₂, hres₂, hw₂⟩ := onlyIf_ok hw₁
    (fun h => @putWord_ok _ _ 4 h int)
  obtain ⟨w₃, hres₃, hw₃⟩ := onlyIf_ok hw₂
    (fun h => @putWord_ok _ _ 2 h short)
  obtain ⟨w₄, hres₄, -⟩ := onlyIf_ok hw₃ (fun h => put_ok h b)
  refine ⟨w₄, ?_⟩
  rw [fillWith, Fallible.bind_ok hexpand, Fallible.bind_ok hres₁]
  exact (Fallible.bind_ok hres₂).trans ((Fallible.bind_ok hres₃).trans hres₄)

end Room

section Outcome

/-- What is in front of the position. -/
theorem wrote_front (hv : v.Valid) :
    Wrote v.buf.order (v.shown.take v.buf.position.toNat) v := by
  obtain ⟨h₁, h₂, h₃, h₄, h₅, h₆⟩ := hv.numbers
  refine ⟨?_, rfl, List.take_prefix _ _⟩
  rw [List.length_take, View.shown, Memory.read_length]
  omega

theorem fillWith_outcome
    {long : BitVec 64} {int : BitVec 32} {short : BitVec 16}
    (hlong : Repeats b 8 long) (hint : Repeats b 4 int)
    (hshort : Repeats b 2 short) (h : Accepts n v) :
    ∃ w, fillWith long int short b n v = .ok () w ∧
      Wrote v.buf.order (v.shown.take v.buf.position.toNat ++
        List.replicate n b) w := by
  obtain ⟨w, hfill⟩ := fillWith_ok long int short b h
  exact ⟨w, hfill, ((fillWith_wrote hlong hint hshort n).returned h.valid
    (wrote_front h.valid) hfill).2.2⟩

/--
`Fill` of a buffer with room puts the value, or 0, as often as it was asked to
behind what is in front of the position, for every value, size and byte order.
-/
theorem fill_outcome (h : Accepts n v) :
    (∃ w, fill n v = .ok () w ∧
      Wrote v.buf.order (v.shown.take v.buf.position.toNat ++
        List.replicate n 0) w) ∧
    ∀ b, ∃ w, fillValue b n v = .ok () w ∧
      Wrote v.buf.order (v.shown.take v.buf.position.toNat ++
        List.replicate n b) w := by
  have hread : ¬ v.buf.readOnly = true := by
    simp [h.writable]
  constructor
  · rw [fill, Fallible.get_bind, if_neg hread]
    exact fillWith_outcome (zero_repeats 8) (zero_repeats 4)
      (zero_repeats 2) h
  · intro b
    rw [fillValue, Fallible.get_bind, if_neg hread]
    exact fillWith_outcome (longValue_repeats b) (intValue_repeats b)
      (shortValue_repeats b) h

/-- Thirteen bytes, in all of the parts but the one of two. -/
theorem fill_outcome_expanding :
    ∃ w, fillValue 200 13 expanding = .ok () w ∧
      Wrote .LittleEndian (List.replicate 13 200) w := by
  have haccepts : Accepts 13 expanding :=
    ⟨expanding_valid, rfl, .inr ⟨rfl, rfl, by decide⟩⟩
  exact (fill_outcome haccepts).2 200

end Outcome

end Op

end Mina
end NetEngine
