import NetEngine.Mina.Contents
import NetEngine.Mina.HeapSafety

/-!
# What Compact does

`Compact` moves the bytes that are left to be read to the beginning and puts the
position behind them.  The part that shrinks the array has two exits that do not
get there.  Its loop lacks the test for 0 that `Shrink` has, so it never ends in
an empty buffer without a minimum capacity; and where the capacity is the right
one already, nothing is moved.
-/

namespace NetEngine
namespace Mina

open Net

namespace Op

variable {o : ByteOrder} {xs : List UInt8} {v : View} {writes : Bool}

section Loop

/-- `Compact` goes for a smaller array. -/
def Shrinks (v : View) : Prop :=
  (v.buf.autoShrink = true ∧ v.buf.recapacityAllowed = true) ∧
    v.buf.remaining ≤ v.buf.capacity / 4 ∧
      v.buf.capacity > v.buf.minimumCapacity

/-- `Compact` does not end. -/
def Loops (v : View) : Prop :=
  Shrinks v ∧ v.buf.minimumCapacity = 0 ∧ v.buf.remaining = 0

/-- `Compact` returns at `newCapacity == capacity`. -/
def Skips (v : View) : Prop :=
  Shrinks v ∧ v.buf.capacity / 2 < v.buf.minimumCapacity

/-- The capacity stays at 0 once it is there. -/
theorem compactLoop_zero {c : Int} (hc : 0 ≤ c) (n : Nat) :
    compactLoop 0 n c = none := by
  induction n generalizing c with
  | zero =>
      rfl
  | succ n ih =>
      rw [compactLoop, if_neg (by omega)]
      exact ih (by omega)

/-- With a minimum above 0 the loop ends after as many steps as bits. -/
theorem compactLoop_isSome
    {m c : Int} (hm : 0 < m) (hc : 0 < c) {n : Nat} (hlt : c < 2 ^ n) :
    ∃ d, compactLoop m n c = some d := by
  induction n generalizing c with
  | zero =>
      rw [pow_zero] at hlt
      omega
  | succ n ih =>
      rw [compactLoop]
      by_cases hlast : c / 2 < m
      · exact ⟨c, if_pos hlast⟩
      · rw [if_neg hlast]
        rw [pow_succ] at hlt
        exact ih (by omega) (by omega)

/-- The loop of `Shrink` ends with every minimum. -/
theorem shrinkLoop_isSome
    {m c : Int} (hm : 0 ≤ m) (hc : 0 < c) {n : Nat} (hlt : c < 2 ^ n) :
    ∃ d, shrinkLoop m n c = some d := by
  induction n generalizing c with
  | zero =>
      rw [pow_zero] at hlt
      omega
  | succ n ih =>
      rw [shrinkLoop]
      by_cases hlast : c / 2 < m
      · exact ⟨c, if_pos hlast⟩
      · rw [if_neg hlast]
        by_cases hzero : m = 0
        · exact ⟨c / 2, if_pos hzero⟩
        · rw [if_neg hzero]
          rw [pow_succ] at hlt
          exact ih (by omega) (by omega)

/-- A step that is taken halves the capacity at least. -/
theorem compactLoop_le
    {m c d : Int} {n : Nat} (hc : 0 ≤ c) (hstep : m ≤ c / 2)
    (h : compactLoop m (n + 1) c = some d) : 0 ≤ d ∧ d ≤ c / 2 := by
  rw [compactLoop, if_neg (not_lt.mpr hstep)] at h
  exact compactLoop_bounds n (by omega) h

end Loop

section Ends

/-- A limit that is set further behind keeps what is in front. -/
theorem setLimit_wrote (c : Int) :
    (contract writes).Keeps (fun s => Wrote o xs s ∧ s.buf.limit ≤ c)
      (setLimit c) (fun _ => Wrote o xs) := by
  rintro s hinv ⟨hwrote, hle⟩
  have hposition := hwrote.position
  have hin := hinv.numbers.position_le
  have hlimit := limit_eq hinv
  have hbase : (contract writes).Keeps (fun t => t = s)
      (baseSet (Buffer.setLimit c)) (fun _ => Wrote o xs) := by
    refine (@keeps_baseSetLimit writes xs.length o s.shown c).weaken ?_ ?_
    · rintro t - rfl
      exact ⟨hposition, hwrote.order, rfl⟩
    · rintro _ t - ⟨-, hat, horder, hstarts⟩
      exact ⟨hat (by omega), horder, hwrote.starts.trans (hstarts (by omega))⟩
  exact hbase.bind (fun _ => autoExpand0_wrote c 0) s hinv rfl

/-- Bytes at the beginning, as many as remain, are then those in front. -/
theorem compactEnd_wrote
    (hstarts : xs <+: v.shown) (hlength : v.buf.remaining = xs.length) :
    (contract writes).Keeps (fun s => s = v) compactEnd
      (fun _ => Wrote v.buf.order xs) := by
  refine Contract.Keeps.get_bind (fun s hinv heq => ?_)
  subst heq
  have hset : (contract writes).Keeps (fun t => t = s)
      (setPosition s.buf.remaining)
      (fun _ => Shows s.buf.remaining s.buf.order s.shown) := by
    refine (@setPosition_shows writes s.buf.position s.buf.order s.shown
      _).weaken ?_ (fun _ _ _ => id)
    rintro t - rfl
    exact ⟨rfl, rfl, rfl⟩
  refine hset.bind (fun _ => Contract.Keeps.get_bind (fun t ht hshows => ?_))
  refine (setLimit_wrote t.buf.capacity).weaken ?_ (fun _ _ _ => id)
  rintro r - rfl
  refine ⟨⟨?_, hshows.order, ?_⟩, ht.numbers.limit_le⟩
  · rw [← hlength]
    exact hshows.position
  · rw [hshows.shown]
    exact hstarts

/-- `Position = Remaining; Limit = Capacity` does not throw. -/
theorem compactEnd_ok
    (hv : v.Valid) (hle : v.buf.remaining ≤ v.buf.limit) :
    ∃ w, compactEnd v = .ok () w := by
  obtain ⟨h₁, h₂, h₃, h₄, h₅, h₆⟩ := hv.numbers
  have hrem : v.buf.remaining = v.buf.limit - v.buf.position := rfl
  have hto : v.buf.position + (v.buf.remaining - v.buf.position) =
      v.buf.remaining := by
    omega
  obtain ⟨w, hset, hw⟩ := @setPosition_ok v hv
    (v.buf.remaining - v.buf.position) (by omega) (by omega)
  rw [hto] at hset
  obtain ⟨t, hlimit, ht, -⟩ :=
    baseSetLimit_ok hw.valid hw.valid.numbers.limit_le (le_refl _)
  obtain ⟨-, -, g₃, g₄, g₅, g₆⟩ := hw.valid.numbers
  obtain ⟨r, hres, -⟩ := @autoExpand0_ok t ht.valid w.buf.capacity 0
    (by omega) (by omega)
  refine ⟨r, ?_⟩
  rw [compactEnd, Fallible.get_bind, Fallible.bind_ok hset,
    Fallible.get_bind, setLimit, Fallible.bind_ok hlimit, hres]

end Ends

section Outcome

/-- The bytes that remain, in the array that `Compact` allocates. -/
theorem unread_prefix_shrunk
    (hv : v.Valid) {n : Int} (hn : v.buf.remaining ≤ n) :
    v.unread <+: (shrunk v n).shown := by
  obtain ⟨h₁, h₂, h₃, h₄, h₅, h₆⟩ := hv.numbers
  have hunread := View.unread_eq hv
  have hlength : v.unread.length = v.buf.remaining.toNat := by
    rw [hunread, Memory.read_length]
  have htake : (shrunk v n).shown.take v.unread.length = v.unread := by
    show ((Memory.store (fun _ => 0) 0 (v.hb.cells.read
      (v.buf.position + v.buf.offset).toNat
        v.buf.remaining.toNat)).read 0 n.toNat).take _ = _
    rw [← hunread, Memory.take_read _ _ (by omega),
      Memory.read_store _ _ (le_refl _), List.take_length]
  rw [← htake]
  exact List.take_prefix _ _

/-- The bytes that remain, moved to the beginning of the window. -/
theorem compactMove_wrote (hv : v.Valid) :
    ∃ w, compactMove v v = .ok () w ∧ Wrote v.buf.order v.unread w := by
  obtain ⟨h₁, h₂, h₃, h₄, h₅, h₆⟩ := hv.numbers
  have hwindow := hv.window
  have hoffset := hv.offset_ge
  have hlength := hv.length_lt
  have hrem : v.buf.remaining = v.buf.limit - v.buf.position := rfl
  have hfrom : int32 (v.buf.position + v.buf.offset) =
      v.buf.position + v.buf.offset :=
    int32_of_bounds (by omega) (by omega)
  have hto : int32 (0 + v.buf.offset) = v.buf.offset := by
    rw [zero_add]
    exact int32_of_bounds (by omega) (by omega)
  have hunread := View.unread_eq hv
  have hcount : v.buf.remaining = v.unread.length := by
    rw [hunread, Memory.read_length]
    omega
  have hmoved : (stored v v.buf.offset v.unread).Valid := hv.withCells _
  have hstarts : v.unread <+: (stored v v.buf.offset v.unread).shown := by
    have h := @starts_store [] v.unread v hv List.nil_prefix
      (by rw [← hcount, List.length_nil]; omega)
    rwa [List.nil_append, List.length_nil, Nat.cast_zero, zero_add] at h
  obtain ⟨w, hend⟩ := compactEnd_ok hmoved (show v.buf.remaining ≤ _ by
    show v.buf.remaining ≤ v.buf.limit
    omega)
  refine ⟨w, ?_, ((@compactEnd_wrote v.unread _ true hstarts
    hcount).returned hmoved rfl hend).2.2⟩
  unfold compactMove
  rw [hfrom, hto, blockCopy_eq (by omega) hoffset (by omega) (by omega)
    (by omega), ← hunread]
  exact hend

/-- What `Compact` does in the part that shrinks. -/
theorem compactShrink_outcome (hv : v.Valid) (hshrinks : Shrinks v) :
    (Loops v → compactShrink v v = .error .hangs v) ∧
    (Skips v → compactShrink v v = .ok () v) ∧
    (¬ Loops v → ¬ Skips v →
      ∃ w, compactShrink v v = .ok () w ∧ Wrote v.buf.order v.unread w) := by
  obtain ⟨h₁, h₂, h₃, h₄, h₅, h₆⟩ := hv.numbers
  have hmin := hv.minimum_ge
  have hmin' := hv.minimum_lt
  have hrem : v.buf.remaining = v.buf.limit - v.buf.position := rfl
  obtain ⟨hmode, hfew, hlarge⟩ := hshrinks
  obtain ⟨m, hm⟩ : ∃ m,
      m = max v.buf.minimumCapacity (2 * v.buf.remaining) := ⟨_, rfl⟩
  refine ⟨?_, ?_, ?_⟩
  · rintro ⟨-, hnone, hempty⟩
    have hzero : max v.buf.minimumCapacity
        (int32 (2 * v.buf.remaining)) = 0 := by
      rw [hnone, hempty]
      rfl
    unfold compactShrink
    dsimp only
    rw [hzero, compactLoop_zero (by omega)]
    rfl
  · rintro ⟨-, hskip⟩
    have hloop : compactLoop m 32 v.buf.capacity = some v.buf.capacity :=
      if_pos (by omega)
    rw [compactShrink_eq hv hfew (hm ▸ hloop) rfl, if_pos (by omega)]
  · intro hends hmoves
    have hpos : 0 < m := by
      by_contra hzero
      exact hends ⟨⟨hmode, hfew, hlarge⟩, by omega, by omega⟩
    have hstep : m ≤ v.buf.capacity / 2 := by
      by_contra hskip
      exact hmoves ⟨⟨hmode, hfew, hlarge⟩, by omega⟩
    obtain ⟨c, hloop⟩ := @compactLoop_isSome m v.buf.capacity hpos
      (by omega) 32 (by omega)
    obtain ⟨hge, hle⟩ := compactLoop_le (by omega) hstep hloop
    have hvalid := @shrunk_valid v hv (max m c) (by omega) (by omega)
    have hstarts := @unread_prefix_shrunk v hv (max m c) (by omega)
    have hcount : v.buf.remaining = v.unread.length := by
      rw [View.unread_eq hv, Memory.read_length]
      omega
    obtain ⟨w, hres, -⟩ := @autoExpand0_ok _ hvalid (max m c) 0 (by omega)
      (by omega)
    have hwrote : Wrote v.buf.order v.unread (shrunk v (max m c)) :=
      ⟨hcount, rfl, hstarts⟩
    refine ⟨w, ?_, ((@autoExpand0_wrote v.buf.order v.unread true _ _).returned
      hvalid hwrote hres).2.2⟩
    rw [compactShrink_eq hv hfew (hm ▸ hloop) rfl, ← hm, if_neg (by omega),
      hres]

/--
`Compact` on a writable buffer: for ever in an empty buffer that may shrink to
nothing, not at all where the capacity is right already, and else so that the
bytes left to be read are those in front of the position.
-/
theorem compact_outcome (hv : v.Valid) (hread : v.buf.readOnly = false) :
    (Loops v → compact v = .error .hangs v ∧
      ∀ n, compactLoop 0 n v.buf.capacity = none) ∧
    (Skips v → compact v = .ok () v) ∧
    (¬ Loops v → ¬ Skips v →
      ∃ w, compact v = .ok () w ∧ Wrote v.buf.order v.unread w) := by
  have hmin := hv.minimum_ge
  obtain ⟨h₁, h₂, h₃, h₄, h₅, h₆⟩ := hv.numbers
  rw [compact, Fallible.get_bind, if_neg (by simp [hread])]
  by_cases hzero : v.buf.capacity = 0
  · have hposition : v.buf.position = 0 := by omega
    have hlimit : v.buf.limit = 0 := by omega
    have hlarge : ¬ Shrinks v := fun h => absurd h.2.2 (by omega)
    have hunread : v.unread = v.shown := by
      rw [View.unread, hposition, Int.toNat_zero, List.drop_zero]
    have hempty : v.shown.length = 0 := by
      rw [View.shown, Memory.read_length, hlimit, Int.toNat_zero]
    rw [if_pos hzero]
    refine ⟨fun h => absurd h.1 hlarge, fun h => absurd h.1 hlarge,
      fun _ _ => ⟨v, rfl, ?_, rfl, ?_⟩⟩
    · rw [hunread, hempty, hposition, Nat.cast_zero]
    · rw [hunread]
  · rw [if_neg hzero]
    by_cases hshrinks : (v.buf.autoShrink = true ∧
        v.buf.recapacityAllowed = true) ∧
        v.buf.remaining ≤ v.buf.capacity / 4 ∧
          v.buf.capacity > v.buf.minimumCapacity
    · obtain ⟨hloops, hskips, hmoves⟩ := compactShrink_outcome hv hshrinks
      rw [if_pos hshrinks]
      exact ⟨fun h => ⟨hloops h, compactLoop_zero (by omega)⟩, hskips,
        hmoves⟩
    · rw [if_neg hshrinks]
      exact ⟨fun h => absurd h.1 hshrinks, fun h => absurd h.1 hshrinks,
        fun _ _ => compactMove_wrote hv⟩

/-- Four bytes that were read and may shrink to nothing. -/
def drained : View where
  buf :=
    { mark := -1, position := 0, limit := 0, capacity := 4
      derived := false, autoShrink := true, recapacityAllowed := true
      minimumCapacity := 0, offset := 0 }
  hb := Bytes.zeros 4

/-- One byte left in four, which may not shrink below three. -/
def snug : View where
  buf :=
    { mark := -1, position := 3, limit := 4, capacity := 4
      derived := false, autoShrink := true, recapacityAllowed := true
      minimumCapacity := 3, offset := 0 }
  hb := Bytes.zeros 4

theorem drained_valid : drained.Valid := by
  constructor <;> simp [drained, Bytes.zeros]
  constructor <;> simp

theorem snug_valid : snug.Valid := by
  constructor <;> simp [snug, Bytes.zeros]
  constructor <;> simp

theorem compact_outcome_drained :
    compact drained = .error .hangs drained ∧ compact snug = .ok () snug := by
  have hdrained : Loops drained := by
    simp [Loops, Shrinks, drained, Buffer.remaining]
  have hsnug : Skips snug := by
    simp [Skips, Shrinks, snug, Buffer.remaining]
  exact ⟨((compact_outcome drained_valid rfl).1 hdrained).1,
    (compact_outcome snug_valid rfl).2.1 hsnug⟩

-- a program gets there with four calls
example : (Heap.run [.allocate 4, .call 0 (.setMinimumCapacity 0),
    .call 0 (.setAutoShrink true), .call 0 .flip, .call 0 .compact]).2 =
      [.hangs] := rfl

/-- `Shrink` always ends, and shows the same bytes at the same position. -/
theorem shrink_outcome
    (hv : v.Valid) (hallowed : v.buf.recapacityAllowed = true) :
    ∃ w, shrink v = .ok () w ∧
      Shows v.buf.position v.buf.order v.shown w := by
  obtain ⟨h₁, h₂, h₃, h₄, h₅, h₆⟩ := hv.numbers
  have hwindow := hv.window
  have hmin := hv.minimum_ge
  rw [shrink, Fallible.get_bind, if_neg (Bool.not_eq_false _ ▸ hallowed)]
  by_cases hfull : v.buf.capacity = v.buf.limit
  · rw [if_pos hfull]
    exact ⟨v, rfl, rfl, rfl, rfl⟩
  · obtain ⟨c, hloop⟩ := @shrinkLoop_isSome
      (max v.buf.minimumCapacity v.buf.limit) v.buf.capacity (by omega)
      (by omega) 32 (by omega)
    rw [if_neg hfull]
    dsimp only
    rw [hloop]
    dsimp only
    by_cases hsame :
        max (max v.buf.minimumCapacity v.buf.limit) c = v.buf.capacity
    · rw [if_pos hsame]
      exact ⟨v, rfl, rfl, rfl, rfl⟩
    · rw [if_neg hsame,
        blockCopy_zeros hv.offset_ge (by omega) (by omega) (by omega)]
      refine ⟨_, rfl, rfl, rfl, ?_⟩
      show (Memory.store _ 0 _).read 0 v.buf.limit.toNat = v.shown
      rw [Memory.read_store _ _ (by rw [Memory.read_length]),
        Memory.take_read _ _ (le_refl _), View.shown]

theorem shrink_outcome_drained :
    ∃ w, shrink drained = .ok () w ∧
      Shows 0 .LittleEndian drained.shown w :=
  shrink_outcome drained_valid rfl

end Outcome

end Op

end Mina
end NetEngine
